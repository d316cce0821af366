import LinkArchive.Proofs.Dump.Rest

/-!
# What lines are made of

Every call that reads a line takes a stretch of its source's data, whatever fails or ends there.
The line is that stretch without line ends: `Lines.passes_reads`. Only the first line can lack a
mark that it has in the source, and then all data before it was cut off by failures.
-/

namespace LinkArchive.Dump

/-- What one call takes from a source and what it gives for it: an LF that belongs to the line
before, a line or a part of one, and the end of that line. -/
structure Stretch where
  lead : Bytes := []
  text : Bytes := []
  ending : Bytes := []
  result : LineResult

namespace Stretch

def bytes (s : Stretch) : Bytes := s.lead ++ (s.text ++ s.ending)

/-- The line is passed on as the source has it. What a failure cuts off is not passed on. -/
inductive Verbatim : Stretch → Prop where
  | line (lead text ending : Bytes) : Verbatim ⟨lead, text, ending, .line text⟩
  | lost (lead text : Bytes) (error : ReadError) : Verbatim ⟨lead, text, [], .failed error⟩
  | ended (lead : Bytes) : Verbatim ⟨lead, [], [], .ended⟩

/-- The line is passed on without the mark that it begins with. -/
inductive Unmarked : Stretch → Prop where
  | line (text ending : Bytes) : Unmarked ⟨[], byteOrderMark ++ text, ending, .line text⟩

/-- A stretch is cut where lines end. It begins with an LF only if that is `joined` to a CR. -/
structure Cut (joined : Prop) (s : Stretch) : Prop where
  lead : s.lead = [] ∨ s.lead = [lf] ∧ joined
  text : ∀ byte ∈ s.text, isTerminator byte = false
  ending : s.ending = [] ∨ s.ending = [lf] ∨ s.ending = [cr]

end Stretch

/-- Nothing was taken but what failures cut off. -/
def Lost (stretches : List Stretch) : Prop :=
  ∀ s ∈ stretches, s.bytes ≠ [] → ∃ error, s.result = .failed error

/-- How a stretch is passed on that other calls took some stretches before. -/
structure Stretch.Passed (before : List Stretch) (s : Stretch) : Prop where
  cut : s.Cut ([cr] <:+ before.flatMap Stretch.bytes)
  passed : s.Verbatim ∨ s.Unmarked ∧ Lost before

/-- What calls have done with the data of a source, of which that of `rest` is left. -/
structure Passes (source : Source) (stretches : List Stretch) (rest : Source) : Prop where
  whole : source.data = stretches.flatMap Stretch.bytes ++ rest.data
  each : ∀ before s behind, stretches = before ++ s :: behind → s.Passed before

theorem passes_nil (source : Source) : Passes source [] source where
  whole := rfl
  each before s behind same := by simp at same

theorem Passes.append {source left rest : Source} {stretches : List Stretch} {s : Stretch}
    (h : Passes source stretches left) (whole : left.data = s.bytes ++ rest.data)
    (passed : s.Passed stretches) : Passes source (stretches ++ [s]) rest where
  whole := by
    rw [h.whole, whole]
    simp
  each before t behind same := by
    rcases List.eq_nil_or_concat behind with rfl | ⟨others, last, rfl⟩
    · obtain ⟨rfl, last_eq⟩ := List.append_inj' same rfl
      obtain rfl : s = t := (List.cons.inj last_eq).1
      exact passed
    · rw [List.concat_eq_append, ← List.cons_append, ← List.append_assoc] at same
      exact h.each before t others (List.append_inj' same rfl).1

namespace Lines

/-! ### One search for a line -/

/-- What a search for a line comes to: it takes a line, or a part of one, as the source has it. -/
structure Scanned (afterCr : Bool) (data : Bytes) (s : Stretch)
    (found : LineResult × Bool × Source) : Prop where
  result_eq : s.result = found.1
  verbatim : s.Verbatim
  cut : s.Cut (afterCr = true)
  whole : data = s.bytes ++ found.2.2.data
  joined : found.2.1 = true → s.ending = [cr] ∨ s.bytes = [] ∧ afterCr = true

theorem scanned_nothing (afterCr : Bool) (failure : Option ReadError) (rest : Source) :
    ∃ s, Scanned afterCr rest.data s (failure.elim .ended .failed, afterCr, rest) := by
  cases failure with
  | none =>
    exact ⟨_, rfl, .ended [], ⟨.inl rfl, nofun, .inl rfl⟩, rfl, fun joined => .inr ⟨rfl, joined⟩⟩
  | some error =>
    exact ⟨_, rfl, .lost [] [] error, ⟨.inl rfl, nofun, .inl rfl⟩, rfl,
      fun joined => .inr ⟨rfl, joined⟩⟩

theorem exists_lead (afterCr : Bool) (piece : Bytes) :
    ∃ lead, piece = lead ++ dropLf afterCr piece ∧ (lead = [] ∨ lead = [lf] ∧ afterCr = true) := by
  unfold dropLf
  split
  · rename_i joined
    obtain ⟨afterCr, first⟩ := (Bool.and_eq_true _ _).mp joined
    obtain ⟨rest, rfl⟩ := List.head?_eq_some_iff.mp (beq_iff_eq.mp first)
    exact ⟨[lf], rfl, .inr ⟨rfl, afterCr⟩⟩
  · exact ⟨[], rfl, .inl rfl⟩

/-- Where no CR came before, no LF is left out, and only a CR that was met is remembered. -/
theorem Scanned.alone {data : Bytes} {s : Stretch} {found : LineResult × Bool × Source}
    (h : Scanned false data s found) :
    s.lead = [] ∧ (found.2.1 = true → s.ending = [cr]) :=
  ⟨h.cut.lead.resolve_right (by simp), fun isCr => (h.joined isCr).resolve_right (by simp)⟩

/-- A CR that is remembered is the last byte taken. -/
theorem Scanned.suffix {afterCr : Bool} {data before : Bytes} {s : Stretch}
    {found : LineResult × Bool × Source} (h : Scanned afterCr data s found)
    (last : afterCr = true → [cr] <:+ before) (isCr : found.2.1 = true) :
    [cr] <:+ before ++ s.bytes := by
  rcases h.joined isCr with ending | ⟨nothing, still⟩
  · rw [Stretch.bytes, ending, ← List.append_assoc, ← List.append_assoc]
    exact List.suffix_append _ _
  · rw [nothing, List.append_nil]
    exact last still

/-- A search that goes on behind some text, in which no line ends. -/
theorem Scanned.prepend {afterCr : Bool} {lead text data : Bytes} {s : Stretch}
    {found : LineResult × Bool × Source} (h : Scanned false data s found)
    (lead_eq : lead = [] ∨ lead = [lf] ∧ afterCr = true)
    (plain : ∀ byte ∈ text, isTerminator byte = false) :
    ∃ t, Scanned afterCr (lead ++ (text ++ data)) t (found.1.prepend text, found.2) := by
  obtain ⟨alone, isCr⟩ := h.alone
  obtain ⟨result, next, rest⟩ := found
  obtain ⟨rfl, verbatim, cut, rfl, -⟩ := h
  have plain_all : ∀ byte ∈ text ++ s.text, isTerminator byte = false :=
    List.forall_mem_append.mpr ⟨plain, cut.text⟩
  cases verbatim with
  | line _ tail ending =>
    obtain rfl := alone
    exact ⟨⟨lead, text ++ tail, ending, .line (text ++ tail)⟩, rfl, .line _ _ _,
      ⟨lead_eq, plain_all, cut.ending⟩, by simp [Stretch.bytes], fun same => .inl (isCr same)⟩
  | lost _ tail error =>
    obtain rfl := alone
    exact ⟨⟨lead, text ++ tail, [], .failed error⟩, rfl, .lost _ _ _,
      ⟨lead_eq, plain_all, .inl rfl⟩, by simp [Stretch.bytes], fun same => .inl (isCr same)⟩
  | ended =>
    obtain rfl := alone
    -- the text is the last line, unless it is nothing
    cases text with
    | nil =>
      exact ⟨⟨lead, [], [], .ended⟩, rfl, .ended lead, ⟨lead_eq, nofun, .inl rfl⟩,
        by simp [Stretch.bytes], fun same => .inl (isCr same)⟩
    | cons byte text =>
      exact ⟨⟨lead, byte :: text, [], .line (byte :: text)⟩, rfl, .line _ _ _,
        ⟨lead_eq, plain, .inl rfl⟩, by simp [Stretch.bytes], fun same => .inl (isCr same)⟩

theorem scanned_scan (afterCr : Bool) (source : Source) :
    ∃ s, Scanned afterCr source.data s (scan afterCr source) := by
  fun_induction scan afterCr source with
  | case1 afterCr => exact scanned_nothing afterCr none []
  | case2 afterCr error rest interrupted ih => exact ih
  | case3 afterCr error rest fatal => exact scanned_nothing afterCr (some error) rest
  | case4 afterCr rest => exact scanned_nothing afterCr none rest
  | case5 afterCr first bytes rest data text terminator more found =>
    obtain ⟨lead, whole, lead_eq⟩ := exists_lead afterCr (first :: bytes)
    rw [dropLf_cons] at whole
    obtain ⟨cut, plain, ends⟩ := cut_of_ended found
    have ending : [terminator] = [] ∨ [terminator] = [lf] ∨ [terminator] = [cr] := by
      simpa [isTerminator] using ends
    refine ⟨⟨lead, text, [terminator], .line text⟩, rfl, .line lead text _,
      ⟨lead_eq, by simpa using plain, ending⟩, ?_, ?_⟩
    · calc Source.data (.chunk (first :: bytes) :: rest)
          = lead ++ data ++ Source.data rest := by rw [Source.data_chunk, whole]
        _ = lead ++ (text ++ terminator :: more) ++ Source.data rest := by rw [← cut]
        _ = _ := by simp [Stretch.bytes]
    · intro isCr
      exact .inl (by rw [beq_iff_eq.mp isCr])
  | case6 afterCr first bytes rest data text found result state scanned ih =>
    obtain ⟨lead, whole, lead_eq⟩ := exists_lead afterCr (first :: bytes)
    rw [dropLf_cons] at whole
    have plain : ∀ byte ∈ data, isTerminator byte = false := by
      simpa using List.dropWhile_eq_nil_iff.mp found
    have text_eq : text = data := by
      have cut := List.takeWhile_append_dropWhile (p := (!isTerminator ·)) (l := data)
      rwa [found, List.append_nil] at cut
    obtain ⟨s, behind⟩ := ih
    rw [scanned] at behind
    obtain ⟨t, all⟩ := behind.prepend lead_eq plain
    refine ⟨t, ?_⟩
    rw [text_eq, Source.data_chunk, whole, List.append_assoc]
    exact all

/-! ### One call after the other -/

/-- What so many calls give, and what they leave. -/
def reads (lines : Lines) : Nat → List LineResult × Lines
  | 0 => ([], lines)
  | count + 1 =>
    let (results, last) := lines.reads count
    (results ++ [last.next.1], last.next.2)

/-- What calls have done that left the lines as they are. -/
structure Took (source : Source) (stretches : List Stretch) (lines : Lines) : Prop where
  passes : Passes source stretches lines.source
  joined : lines.afterCr = true → [cr] <:+ stretches.flatMap Stretch.bytes
  fresh : lines.number = 0 → lines.afterCr = false ∧ Lost stretches

theorem took_nil (source : Source) : Took source [] { source } :=
  ⟨passes_nil source, nofun, fun _ => ⟨rfl, nofun⟩⟩

theorem dropMark_cases (text : Bytes) :
    dropMark text = text ∨ ∃ rest, text = byteOrderMark ++ rest ∧ dropMark text = rest := by
  unfold dropMark
  split
  · rename_i marked
    obtain ⟨rest, rfl⟩ := List.isPrefixOf_iff_prefix.mp marked
    exact .inr ⟨rest, rfl, List.drop_left⟩
  · exact .inl rfl

theorem Took.next {source : Source} {stretches : List Stretch} {lines : Lines}
    (h : Took source stretches lines) :
    ∃ s, s.result = lines.next.1 ∧ Took source (stretches ++ [s]) lines.next.2 := by
  obtain ⟨s, scanned⟩ := scanned_scan lines.afterCr lines.source
  rcases found : scan lines.afterCr lines.source with ⟨result, afterCr, rest⟩
  rw [found] at scanned
  have fresh (first : lines.number = 0) : s.lead = [] ∧ (s.ending = [] → afterCr = false) := by
    have scanned := scanned
    rw [(h.fresh first).1] at scanned
    refine ⟨scanned.alone.1, fun unended => ?_⟩
    simpa [unended] using scanned.alone.2
  have behind := scanned.suffix h.joined
  obtain ⟨rfl, verbatim, cut, whole, -⟩ := scanned
  have cut : s.Cut ([cr] <:+ stretches.flatMap Stretch.bytes) :=
    ⟨cut.lead.imp_right fun ⟨lead, isCr⟩ => ⟨lead, h.joined isCr⟩, cut.text, cut.ending⟩
  cases verbatim with
  | line lead text ending =>
    rw [next_of_scan_line found]
    refine ⟨⟨lead, text, ending, _⟩, rfl,
      h.passes.append whole ⟨⟨cut.lead, cut.text, cut.ending⟩, ?_⟩, ?_, nofun⟩
    · by_cases first : lines.number = 0
      · obtain rfl := (fresh first).1
        rw [if_pos first]
        rcases dropMark_cases text with same | ⟨rest, rfl, dropped⟩
        · rw [same]
          exact .inl (.line [] text ending)
        · rw [dropped]
          exact .inr ⟨.line rest ending, (h.fresh first).2⟩
      · rw [if_neg first]
        exact .inl (.line lead text ending)
    · rw [List.flatMap_append, List.flatMap_singleton]
      exact behind
  | lost lead text error =>
    have stopped : scan lines.afterCr lines.source =
        ((some error).elim .ended .failed, afterCr, rest) := found
    rw [next_of_scan_stop stopped]
    refine ⟨_, rfl, h.passes.append whole ⟨cut, .inl (.lost lead text error)⟩, ?_, ?_⟩
    · rw [List.flatMap_append, List.flatMap_singleton]
      exact behind
    · intro first
      refine ⟨(fresh first).2 rfl, List.forall_mem_append.mpr ⟨(h.fresh first).2, ?_⟩⟩
      exact List.forall_mem_singleton.mpr fun _ => ⟨error, rfl⟩
  | ended lead =>
    have stopped : scan lines.afterCr lines.source =
        ((none : Option ReadError).elim .ended .failed, afterCr, rest) := found
    rw [next_of_scan_stop stopped]
    refine ⟨_, rfl, h.passes.append whole ⟨cut, .inl (.ended lead)⟩, ?_, ?_⟩
    · rw [List.flatMap_append, List.flatMap_singleton]
      exact behind
    · intro first
      obtain ⟨rfl, notCr⟩ := fresh first
      refine ⟨notCr rfl, List.forall_mem_append.mpr ⟨(h.fresh first).2, ?_⟩⟩
      exact List.forall_mem_singleton.mpr fun some => absurd rfl some

theorem took_reads (source : Source) (count : Nat) :
    let (results, lines) := ({ source } : Lines).reads count
    ∃ stretches : List Stretch,
      stretches.map Stretch.result = results ∧ Took source stretches lines := by
  induction count with
  | zero => exact ⟨[], rfl, took_nil source⟩
  | succ count ih =>
    obtain ⟨stretches, results, took⟩ := ih
    obtain ⟨s, result, next⟩ := took.next
    exact ⟨stretches ++ [s], by rw [List.map_append, results, List.map_singleton, result], next⟩

/-- Calls take the data of their source in stretches and pass each of them on. -/
theorem passes_reads (source : Source) (count : Nat) :
    let (results, lines) := ({ source } : Lines).reads count
    ∃ stretches : List Stretch,
      stretches.map Stretch.result = results ∧ Passes source stretches lines.source := by
  obtain ⟨stretches, results, took⟩ := took_reads source count
  exact ⟨stretches, results, took.passes⟩

end Lines

end LinkArchive.Dump
