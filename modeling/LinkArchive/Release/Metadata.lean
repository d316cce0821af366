import LinkArchive.Text.Cut

/-! What a release says about its shortener. The fields are also available by name, each with the
shape of its values. -/

namespace LinkArchive

/-- A field that a document lacks has the value given here. -/
structure ReleaseMetadata where
  name : String := ""
  minVersion : Int64 := 0
  minClientVersion : Int64 := 0
  alphabet : String := ""
  urlTemplate : String := ""
  requestDelay : Float := 0
  redirectCodes : List UInt16 := []
  noRedirectCodes : List UInt16 := []
  unavailableCodes : List UInt16 := []
  bannedCodes : List UInt16 := []
  bodyRegex : Option String := none
  locationAntiRegex : Option String := none
  method : String := ""
  enabled : Bool := false
  autoqueue : Bool := false
  numCountPerItem : Int64 := 0
  maxNumItems : Int64 := 0
  lowerSequenceNum : Int64 := 0
  autoreleaseTime : Int64 := 0

namespace ReleaseMetadata

inductive Shape where
  | text
  | integer
  | number
  | codes
  | optionalText
  | flag
  deriving DecidableEq, Repr

abbrev Shape.Value : Shape → Type
  | text => String
  | integer => Int64
  | number => Float
  | codes => List UInt16
  | optionalText => Option String
  | flag => Bool

inductive Field where
  | name
  | minVersion
  | minClientVersion
  | alphabet
  | urlTemplate
  | requestDelay
  | redirectCodes
  | noRedirectCodes
  | unavailableCodes
  | bannedCodes
  | bodyRegex
  | locationAntiRegex
  | method
  | enabled
  | autoqueue
  | numCountPerItem
  | maxNumItems
  | lowerSequenceNum
  | autoreleaseTime
  deriving DecidableEq, Repr

namespace Field

def all : List Field :=
  [name, minVersion, minClientVersion, alphabet, urlTemplate, requestDelay, redirectCodes,
    noRedirectCodes, unavailableCodes, bannedCodes, bodyRegex, locationAntiRegex, method, enabled,
    autoqueue, numCountPerItem, maxNumItems, lowerSequenceNum, autoreleaseTime]

def key : Field → String
  | name => "name"
  | minVersion => "min_version"
  | minClientVersion => "min_client_version"
  | alphabet => "alphabet"
  | urlTemplate => "url_template"
  | requestDelay => "request_delay"
  | redirectCodes => "redirect_codes"
  | noRedirectCodes => "no_redirect_codes"
  | unavailableCodes => "unavailable_codes"
  | bannedCodes => "banned_codes"
  | bodyRegex => "body_regex"
  | locationAntiRegex => "location_anti_regex"
  | method => "method"
  | enabled => "enabled"
  | autoqueue => "autoqueue"
  | numCountPerItem => "num_count_per_item"
  | maxNumItems => "max_num_items"
  | lowerSequenceNum => "lower_sequence_num"
  | autoreleaseTime => "autorelease_time"

abbrev shape : Field → Shape
  | name | alphabet | urlTemplate | method => .text
  | requestDelay => .number
  | redirectCodes | noRedirectCodes | unavailableCodes | bannedCodes => .codes
  | bodyRegex | locationAntiRegex => .optionalText
  | enabled | autoqueue => .flag
  | minVersion | minClientVersion | numCountPerItem | maxNumItems | lowerSequenceNum
  | autoreleaseTime => .integer

def ofKey? (key : String) : Option Field := all.find? (·.key == key)

end Field

def get (m : ReleaseMetadata) : (field : Field) → field.shape.Value
  | .name => m.name
  | .minVersion => m.minVersion
  | .minClientVersion => m.minClientVersion
  | .alphabet => m.alphabet
  | .urlTemplate => m.urlTemplate
  | .requestDelay => m.requestDelay
  | .redirectCodes => m.redirectCodes
  | .noRedirectCodes => m.noRedirectCodes
  | .unavailableCodes => m.unavailableCodes
  | .bannedCodes => m.bannedCodes
  | .bodyRegex => m.bodyRegex
  | .locationAntiRegex => m.locationAntiRegex
  | .method => m.method
  | .enabled => m.enabled
  | .autoqueue => m.autoqueue
  | .numCountPerItem => m.numCountPerItem
  | .maxNumItems => m.maxNumItems
  | .lowerSequenceNum => m.lowerSequenceNum
  | .autoreleaseTime => m.autoreleaseTime

def put (m : ReleaseMetadata) : (field : Field) → field.shape.Value → ReleaseMetadata
  | .name, value => { m with name := value }
  | .minVersion, value => { m with minVersion := value }
  | .minClientVersion, value => { m with minClientVersion := value }
  | .alphabet, value => { m with alphabet := value }
  | .urlTemplate, value => { m with urlTemplate := value }
  | .requestDelay, value => { m with requestDelay := value }
  | .redirectCodes, value => { m with redirectCodes := value }
  | .noRedirectCodes, value => { m with noRedirectCodes := value }
  | .unavailableCodes, value => { m with unavailableCodes := value }
  | .bannedCodes, value => { m with bannedCodes := value }
  | .bodyRegex, value => { m with bodyRegex := value }
  | .locationAntiRegex, value => { m with locationAntiRegex := value }
  | .method, value => { m with method := value }
  | .enabled, value => { m with enabled := value }
  | .autoqueue, value => { m with autoqueue := value }
  | .numCountPerItem, value => { m with numCountPerItem := value }
  | .maxNumItems, value => { m with maxNumItems := value }
  | .lowerSequenceNum, value => { m with lowerSequenceNum := value }
  | .autoreleaseTime, value => { m with autoreleaseTime := value }

@[simp] theorem get_put_self (m : ReleaseMetadata) (field : Field) (value : field.shape.Value) :
    (m.put field value).get field = value := by
  cases field <;> rfl

/-- Doubles are equal as numbers. -/
def Shape.same : (shape : Shape) → shape.Value → shape.Value → Bool
  | text, a, b => a == b
  | integer, a, b => a == b
  | number, a, b => Float.beq a b
  | codes, a, b => a == b
  | optionalText, a, b => a == b
  | flag, a, b => a == b

def isDefault (m : ReleaseMetadata) : Bool :=
  Field.all.all fun field => field.shape.same (m.get field) (({} : ReleaseMetadata).get field)

/-! ### URLs -/

def placeholder : List Char := "\x7bshortcode\x7d".toList

/-- What takes the place of a placeholder is not looked at again. -/
def substitute (code : List Char) : List Char → List Char
  | [] => []
  | c :: rest =>
    if placeholder.isPrefixOf (c :: rest) then
      code ++ substitute code (rest.drop (placeholder.length - 1))
    else c :: substitute code rest
termination_by template => template.length
decreasing_by
  · simp only [List.length_drop, List.length_cons]; omega
  · simp

def urlFor (m : ReleaseMetadata) (shortcode : String) : String :=
  String.ofList (substitute shortcode.toList m.urlTemplate.toList)

end ReleaseMetadata

end LinkArchive
