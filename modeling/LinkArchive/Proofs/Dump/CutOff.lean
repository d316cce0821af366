import LinkArchive.Proofs.Dump.Reading

/-!
# Dumps that are cut off

A source that fails behind the bytes of a dump costs a reader what follows the last end of a line,
and no line before: `DumpReader.cutOff_of_failure`.
-/

namespace LinkArchive

namespace Dump

/-! ### Lines that have an end -/

/-- How many lines of some bytes have an end. -/
def lineEnds (bytes : Bytes) : Nat := (cutLines bytes).1.length

/-- The lines of the body that have an end. -/
def endedBody (bytes : Bytes) : List (Bytes × Nat) :=
  (bodyOf (linesOf bytes)).filter (·.2 ≤ lineEnds bytes)

/-- All lines but the last have an end. -/
theorem linesOf_eq_append (bytes : Bytes) :
    ∃ ended tail, linesOf bytes = ended ++ tail ∧ tail.length ≤ 1 ∧
      ended = Lines.unmarked 0 (cutLines bytes).1 ∧ ended.length = lineEnds bytes := by
  refine ⟨Lines.unmarked 0 (cutLines bytes).1, ?_⟩
  rw [linesOf, ← funext dropMark_eq_unmark, splitLines, Lines.unmarked, if_pos rfl]
  dsimp only
  split
  · refine ⟨[], ?_, Nat.zero_le _, rfl, ?_⟩
    · rw [List.append_nil]
    · simp [lineEnds]
  · cases ended : (cutLines bytes).1 with
    | nil => exact ⟨_, rfl, Nat.le_refl _, rfl, by simp [lineEnds, ended]⟩
    | cons line lines => exact ⟨_, rfl, Nat.le_refl _, rfl, by simp [lineEnds, ended]⟩

theorem bodyOf_append (ended tail : List Bytes) :
    bodyOf (ended ++ tail) = (ended.zipIdx 1).drop (bodyStart 1 (ended ++ tail)) ++
      (tail.zipIdx (1 + ended.length)).drop (bodyStart 1 (ended ++ tail) - ended.length) := by
  rw [bodyOf, List.zipIdx_append, List.drop_append, List.length_zipIdx]

theorem endedBody_eq_drop {bytes : Bytes} {ended tail : List Bytes}
    (lines : linesOf bytes = ended ++ tail) (length : ended.length = lineEnds bytes) :
    endedBody bytes = (ended.zipIdx 1).drop (bodyStart 1 (linesOf bytes)) := by
  rw [endedBody, lines, bodyOf_append, List.filter_append]
  have kept : ∀ line ∈ (ended.zipIdx 1).drop (bodyStart 1 (ended ++ tail)),
      decide (line.2 ≤ lineEnds bytes) = true := by
    intro line member
    have inside := List.snd_lt_add_of_mem_zipIdx (List.mem_of_mem_drop member)
    exact decide_eq_true (by omega)
  have lost : ∀ line ∈ (tail.zipIdx (1 + ended.length)).drop
      (bodyStart 1 (ended ++ tail) - ended.length), ¬decide (line.2 ≤ lineEnds bytes) = true := by
    intro line member inside
    have behind := List.le_snd_of_mem_zipIdx (List.mem_of_mem_drop member)
    have inside := of_decide_eq_true inside
    omega
  rw [List.filter_eq_self.mpr kept, List.filter_eq_nil_iff.mpr lost, List.append_nil]

/-- At most the last line of a body has no end. -/
theorem bodyOf_eq_endedBody_append (bytes : Bytes) :
    ∃ last, bodyOf (linesOf bytes) = endedBody bytes ++ last ∧ last.length ≤ 1 := by
  obtain ⟨ended, tail, lines, short, -, length⟩ := linesOf_eq_append bytes
  rw [endedBody_eq_drop lines length, lines, bodyOf_append]
  refine ⟨_, rfl, ?_⟩
  rw [List.length_drop, List.length_zipIdx]
  omega

end Dump

namespace DumpReader

open Dump

/-! ### The header of a dump that is cut off -/

theorem le_used_fieldsFrom (failure : Option ReadError) (fields : List MetaField) (number : Nat)
    (line : Bytes) (ahead : List Bytes) :
    number ≤ (fieldsFrom failure fields number line ahead).used := by
  induction ahead generalizing fields number line with
  | nil =>
    unfold fieldsFrom
    split <;> exact Nat.le_refl _
  | cons next rest ih =>
    unfold fieldsFrom
    split
    · exact Nat.le_refl _
    · dsimp only
      split
      · exact Nat.le_succ _
      · split
        · exact Nat.le_of_succ_le (ih _ _ _)
        · exact Nat.le_refl _

/-- A header that ends before the cut ends there without it too. Otherwise the failure is met, and
the header has all lines before the cut. -/
theorem fieldsFrom_of_cut (error : ReadError) (fields : List MetaField) (number : Nat)
    (line : Bytes) (ahead tail : List Bytes) :
    let stopped := fieldsFrom (some error) fields number line ahead
    let whole := fieldsFrom none fields number line (ahead ++ tail)
    (stopped.result = .error (.io error) ∧ number + ahead.length ≤ whole.used) ∨
      whole = { stopped with ahead := stopped.ahead ++ tail } := by
  induction ahead generalizing fields number line with
  | nil =>
    cases parsed : fieldOf number line with
    | error flaw =>
      right
      rw [fieldsFrom_of_malformed parsed, fieldsFrom_of_malformed parsed]
    | ok field =>
      left
      refine ⟨?_, le_used_fieldsFrom none fields number line tail⟩
      rw [fieldsFrom, parsed]
      rfl
  | cons next rest ih =>
    cases parsed : fieldOf number line with
    | error flaw =>
      right
      rw [fieldsFrom_of_malformed parsed, fieldsFrom_of_malformed parsed]
    | ok field =>
      rw [List.cons_append, fieldsFrom, fieldsFrom, parsed]
      dsimp only
      cases next.isEmpty with
      | true => exact Or.inr rfl
      | false =>
        cases isMetaLine next with
        | false => exact Or.inr rfl
        | true =>
          have later := ih (fields ++ [field]) (number + 1) next
          rw [List.length_cons, Nat.add_comm rest.length, ← Nat.add_assoc]
          exact later

theorem headerEnd_of_cut (error : ReadError) (ended tail : List Bytes) :
    let stopped := headerEnd (some error) ended
    let whole := headerEnd none (ended ++ tail)
    (stopped.result = .error (.io error) ∧ ended.length ≤ whole.used) ∨
      whole = { stopped with ahead := stopped.ahead ++ tail } := by
  cases ended with
  | nil => exact Or.inl ⟨rfl, Nat.zero_le _⟩
  | cons line ahead =>
    rw [List.cons_append, headerEnd, headerEnd]
    cases isMetaLine line with
    | false => exact Or.inr rfl
    | true =>
      have fields := fieldsFrom_of_cut error [] 1 line ahead tail
      rw [List.length_cons, Nat.add_comm]
      exact fields

/-! ### Reading up to the cut -/

theorem drop_zipIdx (lines : List Bytes) (first count : Nat) :
    (lines.drop count).zipIdx (first + count) = (lines.zipIdx first).drop count := by
  apply List.ext_getElem
  · simp
  · intro i _ _
    simp [Nat.add_assoc]

/-- What a failure behind the bytes leaves of a dump: the header and all lines of the body that have
an end, or a header that is cut off itself and no such line. -/
theorem cutOff_of_failure {source rest : Source} {bytes : Bytes} {error : ReadError}
    {fields : List MetaField} (data : source.readToEnd = (bytes, some error, rest))
    (formed : fieldsOfLines (metaLines 1 (linesOf bytes)) = .ok fields) (grammar : Grammar)
    (options : ReaderOptions) :
    ((ofSource source grammar options).header.1 = .error (.io error) ∧ endedBody bytes = []) ∨
      ∃ after number, (ofSource source grammar options).header = (.ok fields, after) ∧
        after.readAll.1 =
          itemsOf grammar options (endedBody bytes) ++ failureItems number (some error) := by
  obtain ⟨ended, tail, lines, -, unmarked, length⟩ := linesOf_eq_append bytes
  have coming : Lines.Ahead { source } ended (some error) :=
    ⟨bytes, rest, data, nofun, by rw [dropLf_false, unmarked]; rfl⟩
  have body := endedBody_eq_drop lines length
  obtain ⟨result, used, -, left⟩ := headerEnd_eq (linesOf bytes)
  have bound := bodyStart_le_length 1 (linesOf bytes)
  obtain ⟨after, found, -, -, -, reached⟩ := header_of_ahead coming grammar options
  generalize bodyStart 1 (linesOf bytes) = start at *
  rw [lines] at result used left bound
  rcases headerEnd_of_cut error ended tail with ⟨failed, all⟩ | same
  · left
    rw [found, failed, body]
    refine ⟨rfl, List.drop_eq_nil_of_le ?_⟩
    rw [List.length_zipIdx]
    omega
  · right
    generalize headerEnd (some error) ended = stopped at found reached same
    rw [same] at result used left
    -- the header ends before the cut, so the lines ahead of it are those of the body that have
    -- an end
    have before : start ≤ ended.length := by
      have lengths := congrArg List.length left
      simp only [List.length_append, List.length_drop] at lengths bound
      omega
    rw [List.drop_append_of_le_length before] at left
    have ahead : stopped.ahead = ended.drop start := List.append_cancel_right left
    have fine : ∀ flaw, stopped.result ≠ .error (.io flaw) := by
      intro flaw failed
      have formed := result.trans (lines ▸ formed)
      rw [failed] at formed
      cases formed
    have numbered : stopped.ahead.zipIdx (stopped.used + 1) = endedBody bytes := by
      have first : stopped.used + 1 = 1 + start := by rw [← used, Nat.add_comm]
      rw [ahead, first, drop_zipIdx, body]
    obtain ⟨items, -⟩ := readAll_of_ahead (reached fine)
    rw [numbered] at items
    refine ⟨after, stopped.used + stopped.ahead.length, ?_, items⟩
    rw [found, ← formed, lines, ← result]

end DumpReader

end LinkArchive
