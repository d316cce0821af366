import LinkArchive.Release.Dump
import LinkArchive.Release.Metadata

/-! The counts of each dump of a release, and the error of a dump that was given up. -/

namespace LinkArchive

structure MemberReport where
  name : String
  width : Option Nat := none
  header : List MetaField := []
  links : Nat := 0
  recordErrors : Nat := 0
  warnings : Nat := 0
  bytes : Nat := 0
  failure : Option MemberError := none

namespace MemberReport

def isOk (report : MemberReport) : Bool := report.failure.isNone

def failureOf (place : Location) : Except MemberFault Nat → Option MemberError
  | .ok _ => none
  | .error fault => some ⟨place, fault⟩

def ofContent (place : Location) (width : Option Nat) (content : DumpContent) : MemberReport where
  name := place.member
  width
  header := content.header
  links := content.items.countP (·.isRecord)
  recordErrors := content.items.countP (!·.isRecord)
  warnings := (content.items.flatMap (·.warnings)).length
  bytes := content.ending.toOption.getD 0
  failure := failureOf place content.ending

end MemberReport

structure ReleaseReport where
  container : String
  metadata : ReleaseMetadata
  members : List MemberReport
  skipped : List String

namespace ReleaseReport

def total (report : ReleaseReport) (number : MemberReport → Nat) : Nat :=
  report.members.foldr (fun member sum => number member + sum) 0

def links (report : ReleaseReport) : Nat := report.total MemberReport.links

def recordErrors (report : ReleaseReport) : Nat := report.total MemberReport.recordErrors

def warnings (report : ReleaseReport) : Nat := report.total MemberReport.warnings

def failedMembers (report : ReleaseReport) : List MemberReport := report.members.filter (!·.isOk)

def member? (report : ReleaseReport) (name : String) : Option MemberReport :=
  report.members.find? (·.name == name)

end ReleaseReport

end LinkArchive
