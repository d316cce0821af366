import LinkArchive.Proofs.Dump.Reading
import LinkArchive.Proofs.Dump.Step

/-!
# Calls in any order

A reader may be asked for its header and for records in any order. Once a read has told of the end
of the records, or of a failure behind the header, the reader stays as it is: `answers_of_ended`.
Asking for the header makes no difference to the records: `answers_of_delivers`.
-/

namespace LinkArchive

namespace Dump

/-- The fields of some header lines up to the first that is no field. -/
def fieldsBefore : List (Bytes × Nat) → List MetaField
  | [] => []
  | line :: rest =>
    match fieldOf line.2 line.1 with
    | .ok field => field :: fieldsBefore rest
    | .error _ => []

end Dump

namespace DumpReader

open Dump

inductive Call where
  | header
  | read
  deriving DecidableEq, Repr

/-- What a call gives. A read leaves the reader at the line of this number. -/
inductive Answer where
  | fields (result : Except DumpError (List MetaField))
  | record (result : Except DumpError (Option LinkRecord)) (warnings : List Warning) (number : Nat)
  deriving DecidableEq

namespace Answer

def error? : Answer → Option DumpError
  | fields (.error error) => some error
  | record (.error error) _ _ => some error
  | _ => none

def isRecord : Answer → Bool
  | fields _ => false
  | record .. => true

end Answer

def ask (r : DumpReader) : Call → Answer × DumpReader
  | .header =>
    let (result, after) := r.header
    (.fields result, after)
  | .read =>
    let (result, warnings, after) := r.read
    (.record result warnings after.lineNumber, after)

def answers (r : DumpReader) : List Call → List Answer × DumpReader
  | [] => ([], r)
  | call :: calls =>
    let (answer, next) := r.ask call
    let (more, last) := next.answers calls
    (answer :: more, last)

theorem answers_append (r : DumpReader) (first second : List Call) :
    r.answers (first ++ second) = ((r.answers first).1 ++ ((r.answers first).2.answers second).1,
      ((r.answers first).2.answers second).2) := by
  induction first generalizing r with
  | nil => rfl
  | cons call first ih => simp only [List.cons_append, answers, ih]

/-! ### The end of the records -/

/-- What a reader answers that has no more records. -/
def lastAnswer (r : DumpReader) : Call → Answer
  | .header => .fields (.ok r.fields)
  | .read => .record (.ok none) [] r.lineNumber

/-- A reader without any more records is not changed by calls. -/
theorem answers_of_exhausted {r : DumpReader} (exhausted : r.phase = .exhausted)
    (calls : List Call) : r.answers calls = (calls.map r.lastAnswer, r) := by
  have begun : r.phase ≠ .start := by simp [exhausted]
  have asked : ∀ call, r.ask call = (r.lastAnswer call, r) := by
    intro call
    cases call with
    | header => rw [ask, header_of_begun begun, lastAnswer]
    | read => rw [ask, DumpReader.read, exhausted, lastAnswer]
  induction calls with
  | nil => rfl
  | cons call calls ih => simp only [answers, asked, ih, List.map_cons]

/-- Every call looks for the header first. -/
theorem begun_ask (r : DumpReader) (call : Call) : (r.ask call).2.phase ≠ .start := by
  cases call with
  | header => exact begun_header r
  | read =>
    show r.read.2.2.phase ≠ .start
    by_cases begun : r.phase = .start
    · have looked := begun_header r
      rw [DumpReader.read, begun]
      rcases found : r.header with ⟨_ | _, after⟩
      · rw [found] at looked
        exact looked
      · rw [found] at looked
        exact (step_readRecord after).begun looked
    · exact (step_read begun).begun begun

theorem begun_answers (r : DumpReader) {calls : List Call} (called : calls ≠ []) :
    (r.answers calls).2.phase ≠ .start := by
  induction calls generalizing r with
  | nil => exact absurd rfl called
  | cons call calls ih =>
    cases calls with
    | nil => exact begun_ask r call
    | cons next calls => exact ih (r.ask call).2 (by simp)

/-- Once a read has told that there is nothing more, or that the source failed behind the header,
every later read tells that there is nothing more, and neither the source nor anything else of the
reader is touched. -/
theorem answers_of_ended (source : Source) (grammar : Grammar) (options : ReaderOptions)
    (before : List Call) {r after : DumpReader} {result : Except DumpError (Option LinkRecord)}
    {warnings : List Warning}
    (reached : ((ofSource source grammar options).answers before).2 = r)
    (read : r.read = (result, warnings, after))
    (last : result = .ok none ∨ ∃ failure, result = .error (.io failure) ∧
      (before = [] → r.header.1.isOk = true))
    (later : List Call) : after.answers later = (later.map after.lastAnswer, after) := by
  apply answers_of_exhausted
  have final : result = .ok none ∨ ∃ failure, result = .error (.io failure) :=
    last.imp_right fun ⟨failure, failed, _⟩ => ⟨failure, failed⟩
  by_cases begun : r.phase = .start
  · -- this is the first call, and it looked for the header
    have first : before = [] := by
      by_contra called
      exact begun_answers (ofSource source grammar options) called (reached ▸ begun)
    rw [DumpReader.read, begun] at read
    rcases found : r.header with ⟨flaw | fields, next⟩
    · rw [found] at read
      cases read
      rcases last with none | ⟨failure, -, fine⟩
      · cases none
      · rw [found] at fine
        cases fine first
    · rw [found] at read
      have step := step_readRecord next
      rw [show next.readRecord = _ from read] at step
      exact step.exhausted final
  · have step := step_read begun
    rw [read] at step
    exact step.exhausted final

/-- The source fails within a line and goes on with the rest of it, which nobody reads. -/
theorem answers_of_ended_of_torn_line :
    let error : ReadError := .fault { kind := .other, text := some "boom" }
    let torn : Source :=
      [.chunk (Bytes.ofText "a|b\nc"), .failure error, .chunk (Bytes.ofText "|d\n")]
    let r := ((ofSource torn .generic {}).answers [.read]).2
    r.read.1 = .error (.io error) ∧ r.read.2.2.lines.source ≠ [] ∧
      ∀ later, r.read.2.2.answers later = (later.map r.read.2.2.lastAnswer, r.read.2.2) := by
  intro error torn r
  have failed : r.read.1 = .error (.io error) := by decide +kernel
  refine ⟨failed, by decide +kernel, ?_⟩
  intro later
  exact answers_of_ended torn .generic {} [.read] rfl rfl (.inr ⟨error, failed, nofun⟩) later

/-- A failure that the first read meets while it looks for the header does not end the records. -/
theorem answers_of_failed_header :
    let error : ReadError := .fault { kind := .other, text := some "boom" }
    let source : Source := [.failure error, .chunk (Bytes.ofText "abc|x\n")]
    (ofSource source .generic {}).answers [.read, .read] |>.1 =
      [.record (.error (.io error)) [] 0, .record (.ok (some (.generic "abc" "" "x"))) [] 1] := by
  decide +kernel

/-! ### Asking for the header -/

theorem fields_fieldsFrom (fields : List MetaField) (number : Nat) {line : Bytes}
    (ahead : List Bytes) (isMeta : isMetaLine line = true) :
    (fieldsFrom none fields number line ahead).fields =
      fields ++ fieldsBefore (metaLines number (line :: ahead)) := by
  induction ahead generalizing fields number line with
  | nil =>
    rw [metaLines_cons _ _ isMeta, fieldsBefore]
    cases parsed : fieldOf number line with
    | error error => simp [fieldsFrom_of_malformed parsed]
    | ok field =>
      rw [fieldsFrom, parsed]
      rfl
  | cons next rest ih =>
    rw [metaLines_cons _ _ isMeta, fieldsBefore]
    cases parsed : fieldOf number line with
    | error error => simp [fieldsFrom_of_malformed parsed]
    | ok field =>
      rw [fieldsFrom, parsed]
      dsimp only
      cases more : isMetaLine next with
      | true =>
        have text : next.isEmpty = false := by cases next <;> simp_all [isMetaLine]
        rw [text, if_neg Bool.false_ne_true, if_pos rfl, ih _ _ more, List.append_assoc]
        rfl
      | false =>
        rw [metaLines_of_other _ rest more]
        cases next <;> rfl

/-- Looking for the header leaves the reader with the fields up to the first bad line. -/
theorem fields_headerEnd (lines : List Bytes) :
    (headerEnd none lines).fields = fieldsBefore (metaLines 1 lines) := by
  cases lines with
  | nil => rfl
  | cons line ahead =>
    rw [headerEnd]
    cases isMeta : isMetaLine line with
    | true => exact fields_fieldsFrom [] 1 ahead isMeta
    | false =>
      rw [metaLines_of_other 1 ahead isMeta]
      rfl

/-- After the header was looked for, asking for it again gives the same fields, and the records come
as if nobody had asked. -/
theorem answers_of_begun {r : DumpReader} (begun : r.phase ≠ .start) (calls : List Call) :
    (∀ result, .fields result ∈ (r.answers calls).1 → result = .ok r.fields) ∧
      (r.answers calls).1.filter (·.isRecord) =
        (r.answers (List.replicate (calls.count .read) .read)).1 := by
  induction calls generalizing r with
  | nil => exact ⟨nofun, rfl⟩
  | cons call calls ih =>
    cases call with
    | header =>
      obtain ⟨fields, records⟩ := ih begun
      simp only [answers, ask, header_of_begun begun]
      refine ⟨?_, ?_⟩
      · intro result member
        rcases List.mem_cons.mp member with same | later
        · exact Answer.fields.inj same
        · exact fields result later
      · rw [List.filter_cons_of_neg (by simp [Answer.isRecord]), records,
          List.count_cons_of_ne (by decide)]
    | read =>
      have step := step_read begun
      rcases read : r.read with ⟨result, warnings, after⟩
      rw [read] at step
      obtain ⟨fields, records⟩ := ih (step.begun begun)
      rw [List.count_cons_self, List.replicate_succ]
      simp only [answers, ask, read]
      refine ⟨?_, ?_⟩
      · intro result member
        rcases List.mem_cons.mp member with same | later
        · cases same
        · rw [← step.keeps.fields_eq]
          exact fields result later
      · rw [List.filter_cons_of_pos rfl, records]

/-- Behind a header line that is wrong, nothing else is wrong the way that it is. -/
theorem error?_of_malformed {r : DumpReader} {number : Nat} (begun : r.phase ≠ .start)
    (free : r.held = none) (behind : number ≤ r.lineNumber) (calls : List Call) :
    ∀ answer ∈ (r.answers calls).1, ∀ error ∈ answer.error?, ¬HeaderError number error := by
  have fine {r : DumpReader} (exhausted : r.phase = .exhausted) (calls : List Call) :
      ∀ answer ∈ (r.answers calls).1, answer.error? = none := by
    intro answer member
    rw [answers_of_exhausted exhausted] at member
    obtain ⟨call, -, rfl⟩ := List.mem_map.mp member
    cases call <;> rfl
  induction calls generalizing r with
  | nil => nofun
  | cons call calls ih =>
    cases call with
    | header =>
      simp only [answers, ask, header_of_begun begun, List.forall_mem_cons]
      exact ⟨nofun, ih begun free behind⟩
    | read =>
      have step := step_read begun
      rcases read : r.read with ⟨result, warnings, after⟩
      rw [read] at step
      simp only [answers, ask, read, List.forall_mem_cons]
      have later := step.begun begun
      cases step with
      | ended _ exhausted =>
        refine ⟨nofun, ?_⟩
        intro answer member error failed
        rw [fine exhausted calls answer member] at failed
        cases failed
      | failed failure _ exhausted =>
        refine ⟨?_, ?_⟩
        · intro error failed
          cases failed
          nofun
        · intro answer member error failed
          rw [fine exhausted calls answer member] at failed
          cases failed
      | line line moves =>
        have forward := moves.forward
        rw [free] at forward
        have forward : r.lineNumber < after.lineNumber := forward
        refine ⟨?_, ih later moves.free (by omega)⟩
        intro error failed
        cases found : (recordOf r.grammar r.options after.lineNumber line).1 with
        | ok record =>
          rw [found] at failed
          cases failed
        | error flaw =>
          rw [found] at failed
          cases failed
          exact (bodyError_recordOf found).ne_headerError (by omega)

theorem answers_reads_prefix (r : DumpReader) {few many : Nat} (fewer : few ≤ many) :
    (r.answers (List.replicate few .read)).1 <+: (r.answers (List.replicate many .read)).1 := by
  obtain ⟨more, rfl⟩ := Nat.exists_eq_add_of_le fewer
  rw [← List.replicate_append_replicate, answers_append]
  exact List.prefix_append _ _

theorem fields_of_header {r after : DumpReader} {fields : List MetaField}
    (found : r.header = (.ok fields, after)) : after.fields = fields := by
  by_cases begun : r.phase = .start
  · rcases read : readHeader { r with phase := .streaming } with ⟨_ | _, last⟩
    · rw [header_of_readHeader begun read] at found
      cases (Prod.mk.inj found).1
    · rw [header_of_readHeader begun read] at found
      obtain ⟨same, rfl⟩ := Prod.mk.inj found
      exact Except.ok.inj same
  · rw [header_of_begun begun] at found
    obtain ⟨same, rfl⟩ := Prod.mk.inj found
    exact Except.ok.inj same

/-- A reader that finds a header answers as if it had looked for it before. -/
theorem answers_of_header {r after : DumpReader} {fields : List MetaField}
    (start : r.phase = .start) (found : r.header = (.ok fields, after)) (calls : List Call) :
    (r.answers calls).1 = (after.answers calls).1 := by
  cases calls with
  | nil => rfl
  | cons call calls =>
    have streaming : after.phase = .streaming := by
      simpa only [found] using streaming_header start
    suffices same : r.ask call = after.ask call by simp only [answers, same]
    cases call with
    | header =>
      rw [ask, ask, found, header_of_begun (by simp [streaming]), fields_of_header found]
    | read =>
      have read : r.read = after.read := by
        rw [read_of_streaming streaming, DumpReader.read, start]
        simp only [found]
      rw [ask, ask, read]

/-- A reader whose header is wrong says so with its first answer, whatever it is asked for. -/
theorem ask_of_malformed {r after : DumpReader} {error : DumpError} (start : r.phase = .start)
    (found : r.header = (.error error, after)) (call : Call) :
    ∃ answer, r.ask call = (answer, after) ∧ answer.error? = some error := by
  cases call with
  | header => exact ⟨_, by rw [ask, found], rfl⟩
  | read => exact ⟨.record (.error error) [] after.lineNumber, by
      simp only [ask, DumpReader.read, start, found], rfl⟩

/-- Whatever order a reader is asked in, a header that is wrong is told of by the first answer and
by no other, and each later one has the fields before the wrong line. The records are those that a
reader gives which is never asked for the header. -/
theorem answers_of_delivers {source : Source} {bytes : Bytes} {capacity : Nat}
    (delivers : source.Delivers bytes) (room : 1 ≤ capacity) (grammar : Grammar)
    (options : ReaderOptions) (calls : List Call) :
    let r := ofSource (source.buffered capacity) grammar options
    let told := (r.answers calls).1
    let alone (count : Nat) := (r.answers (List.replicate count .read)).1
    let header := metaLines 1 (linesOf bytes)
    match fieldsOfLines header with
    | .ok fields =>
      (∀ result, .fields result ∈ told → result = .ok fields) ∧
        ∀ count, calls.count .read ≤ count → told.filter (·.isRecord) <+: alone count
    | .error error =>
      told.head?.bind (·.error?) = calls.head?.map (fun _ => error) ∧
        (∀ answer ∈ told.tail, answer.error? ≠ some error) ∧
        (∀ result, .fields result ∈ told.tail → result = .ok (fieldsBefore header)) ∧
        ∀ count, calls.count .read < count →
          told.tail.filter (·.isRecord) <+: (alone count).tail := by
  intro r told alone header
  have coming := Lines.ahead_of_readToEnd (delivers.readToEnd_buffered room)
  obtain ⟨after, found, -, fields_eq, streaming, -⟩ := header_of_ahead coming grammar options
  rw [(headerEnd_eq (linesOf bytes)).1] at found
  rw [fields_headerEnd] at fields_eq
  have begun : after.phase ≠ .start := by simp [streaming]
  cases parsed : fieldsOfLines header with
  | ok fields =>
    have found : r.header = (.ok fields, after) := found.trans (by rw [parsed])
    have same (calls : List Call) := answers_of_header rfl found calls
    obtain ⟨headers, records⟩ := answers_of_begun begun calls
    rw [fields_of_header found] at headers
    refine ⟨?_, ?_⟩
    · rw [show told = _ from same calls]
      exact headers
    · intro count enough
      rw [show told = _ from same calls, records]
      rw [show alone count = _ from same _]
      exact answers_reads_prefix after enough
  | error error =>
    have found : r.header = (.error error, after) := found.trans (by rw [parsed])
    have failing (call : Call) := ask_of_malformed rfl found call
    -- the first answer is the error, and `after` gives all others
    have alone_tail (count : Nat) : (alone (count + 1)).tail =
        (after.answers (List.replicate count .read)).1 := by
      obtain ⟨answer, asked, -⟩ := failing .read
      simp only [alone, List.replicate_succ, answers, asked, List.tail_cons]
    cases calls with
    | nil =>
      refine ⟨rfl, nofun, nofun, ?_⟩
      intro count _
      exact List.nil_prefix
    | cons call calls =>
      obtain ⟨answer, asked, failed⟩ := failing call
      have told_eq : told = answer :: (after.answers calls).1 := by
        simp only [told, answers, asked]
      obtain ⟨headers, records⟩ := answers_of_begun begun calls
      rw [told_eq, List.head?_cons, List.tail_cons]
      refine ⟨failed, ?_, ?_, ?_⟩
      · intro answer member same
        rcases malformed_of_header (r := r) rfl found with ⟨failure, rfl⟩ | malformed
        · exact fieldsOfLines_ne_io header failure parsed
        · exact error?_of_malformed begun malformed.free (Nat.le_refl _) calls answer member error
            same malformed.there
      · rw [← fields_eq]
        exact headers
      · intro count enough
        have some : count ≠ 0 := Nat.ne_of_gt (Nat.zero_lt_of_lt enough)
        obtain ⟨less, rfl⟩ := Nat.exists_eq_succ_of_ne_zero some
        rw [records, alone_tail]
        apply answers_reads_prefix
        have fewer : calls.count .read ≤ (call :: calls).count .read :=
          (List.sublist_cons_self call calls).count_le _
        omega

/-- A header with a wrong second line, torn apart by the deliveries. -/
theorem answers_of_torn_deliveries :
    let first := Bytes.ofText "#A: 1\n#b"
    let second := Bytes.ofText ": 2\nx|y\n"
    let torn : Source := [.chunk first, .failure (.fault { kind := .interrupted }), .chunk second]
    let header := metaLines 1 (linesOf (first ++ second))
    let error : DumpError := .malformedHeader "#b: 2"
    let r := ofSource (torn.buffered 2) .generic {}
    let calls : List Call := [.read, .header, .read, .header, .read]
    let told := (r.answers calls).1
    torn.Delivers (first ++ second) ∧ 1 ≤ 2 ∧ fieldsOfLines header = .error error ∧
      fieldsBefore header = [⟨"A", "1"⟩] ∧
      told.head?.bind (·.error?) = some error ∧
      (∀ answer ∈ told.tail, answer.error? ≠ some error) ∧
      (∀ result, .fields result ∈ told.tail → result = .ok (fieldsBefore header)) ∧
      ∀ count, 3 < count → told.tail.filter (·.isRecord) <+:
        (r.answers (List.replicate count .read)).1.tail := by
  intro first second torn header error r calls told
  have delivers : torn.Delivers (first ++ second) := by
    rw [← List.append_nil second]
    exact .chunk (by decide +kernel) (.interruption rfl (.chunk (by decide +kernel) .done))
  have parsed : fieldsOfLines header = .error error := by decide +kernel
  have answered := answers_of_delivers delivers (by decide : 1 ≤ 2) .generic {} calls
  simp only [header] at parsed
  simp only [parsed] at answered
  exact ⟨delivers, by decide, parsed, by decide +kernel, answered⟩

end DumpReader

end LinkArchive
