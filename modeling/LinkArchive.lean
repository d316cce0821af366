import LinkArchive.Dump.Reader
import LinkArchive.Listing.Item
import LinkArchive.Release.Folder
import LinkArchive.Release.Metadata.Printer
import LinkArchive.Release.Shortcode
import LinkArchive.Release.Visit
import LinkArchive.Proofs.Source.Delivery
import LinkArchive.Proofs.Text.Utf8
import LinkArchive.Proofs.Dump.Grammar
import LinkArchive.Proofs.Dump.Splitting
import LinkArchive.Proofs.Dump.Ahead
import LinkArchive.Proofs.Dump.Reading
import LinkArchive.Proofs.Dump.Written
import LinkArchive.Proofs.Dump.CutOff
import LinkArchive.Proofs.Dump.Step
import LinkArchive.Proofs.Dump.Calls
import LinkArchive.Proofs.Dump.LineEnds
import LinkArchive.Proofs.Digest.Incremental
import LinkArchive.Proofs.Validator.Verdict
import LinkArchive.Proofs.Release.Dump
import LinkArchive.Proofs.Release.Walk
import LinkArchive.Proofs.Release.Records
import LinkArchive.Proofs.Release.Verification
import LinkArchive.Proofs.Release.Refusal
import LinkArchive.Proofs.Release.Isolation
import LinkArchive.Proofs.Release.Outcome
import LinkArchive.Proofs.Release.Visit
import LinkArchive.Proofs.Release.Accounts
import LinkArchive.Proofs.Release.Stopping
import LinkArchive.Proofs.Dump.Failing
import LinkArchive.Proofs.Release.Storage
import LinkArchive.Proofs.Files.PathName
import LinkArchive.Proofs.Files.Tree
import LinkArchive.Proofs.Release.Folders
import LinkArchive.Proofs.Digest.Recorded
import LinkArchive.Proofs.Listing.Item
import LinkArchive.Proofs.Release.Shortcode
import LinkArchive.Proofs.Json.Document
import LinkArchive.Proofs.Json.Text
import LinkArchive.Proofs.Release.Inventory
import LinkArchive.Proofs.Json.Number
import LinkArchive.Proofs.Release.Metadata.Fields
import LinkArchive.Proofs.Release.Metadata.Objects
import LinkArchive.Proofs.Release.Metadata.Arrays
import LinkArchive.Proofs.Release.Metadata.Whole
import LinkArchive.Proofs.Release.Document
import LinkArchive.Proofs.Text.Hex
import LinkArchive.Proofs.Digest.Changes
import LinkArchive.Proofs.Dump.Rest
import LinkArchive.Proofs.Dump.Mark
import LinkArchive.Proofs.Json.Printed
import LinkArchive.Proofs.Release.Metadata.Printed
import LinkArchive.Proofs.Text.Numeral
import LinkArchive.Proofs.Release.Member
import LinkArchive.Proofs.Release.Shortcode.Order
import LinkArchive.Proofs.Release.Metadata.Url
import LinkArchive.Proofs.Files.Below
import LinkArchive.Proofs.Listing.Confinement
