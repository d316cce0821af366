import LinkArchive.Source

/-!
# What a source delivers

`Source.Delivers` says that the reads of a source hand out some bytes and nothing but them.
`readToEnd` sees only that, also through a buffer: `readToEnd_buffered` holds of every source,
whatever fails or ends on the way.
-/

namespace LinkArchive.Source

/-- Reads hand out these bytes and then meet the end: no chunk is empty, and no failure is more than
an interruption. -/
inductive Delivers : Source → Bytes → Prop where
  | done : Delivers [] []
  | chunk {rest : Source} {piece bytes : Bytes} :
      piece ≠ [] → Delivers rest bytes → Delivers (.chunk piece :: rest) (piece ++ bytes)
  | interruption {rest : Source} {error : ReadError} {bytes : Bytes} :
      error.isInterrupted = true → Delivers rest bytes → Delivers (.failure error :: rest) bytes

theorem Delivers.readToEnd {source : Source} {bytes : Bytes} (h : source.Delivers bytes) :
    source.readToEnd = (bytes, none, []) := by
  induction h with
  | done => rfl
  | chunk nonempty _ ih =>
    rw [Source.readToEnd, if_neg (by simpa using nonempty), ih]
  | interruption interrupted _ ih =>
    rw [Source.readToEnd, if_pos interrupted, ih]

/-! ### All data -/

/-- All that a source has to deliver, whatever fails or ends on the way. -/
def data (source : Source) : Bytes :=
  source.flatMap fun
    | .chunk bytes => bytes
    | .failure _ => []

@[simp] theorem data_chunk (bytes : Bytes) (rest : Source) :
    data (.chunk bytes :: rest) = bytes ++ rest.data := rfl

@[simp] theorem data_putBack (bytes : Bytes) (rest : Source) :
    (putBack bytes rest).data = bytes ++ rest.data := by
  unfold putBack
  split
  · simp_all
  · rfl

/-! ### Data before a source -/

theorem readToEnd_chunk_append {piece : Bytes} (rest : Source) (nonempty : piece ≠ []) :
    readToEnd (.chunk piece :: rest) = (piece ++ rest.readToEnd.1, rest.readToEnd.2) := by
  rw [readToEnd, if_neg (by simpa using nonempty)]

theorem Delivers.readToEnd_append {source : Source} {bytes : Bytes} (h : source.Delivers bytes)
    (rest : Source) :
    (source ++ rest).readToEnd = (bytes ++ rest.readToEnd.1, rest.readToEnd.2) := by
  induction h with
  | done => rfl
  | chunk nonempty _ ih =>
    rw [List.cons_append, readToEnd_chunk_append _ nonempty, ih, List.append_assoc]
  | interruption interrupted _ ih =>
    rw [List.cons_append, Source.readToEnd, if_pos interrupted, ih]

@[simp] theorem readToEnd_putBack (bytes : Bytes) (rest : Source) :
    (putBack bytes rest).readToEnd = (bytes ++ rest.readToEnd.1, rest.readToEnd.2) := by
  unfold putBack
  split
  · simp_all
  · exact readToEnd_chunk_append rest (by simp_all)

/-- Reading to the end is reading again and again, into buffers of any size. -/
theorem readToEnd_of_read (source : Source) {room : Nat} (spacious : room ≠ 0) :
    source.readToEnd = match source.read room with
      | (.error error, after) =>
        if error.isInterrupted then after.readToEnd else ([], some error, after)
      | (.ok bytes, after) =>
        if bytes.isEmpty then ([], none, after)
        else (bytes ++ after.readToEnd.1, after.readToEnd.2) := by
  cases source with
  | nil => rfl
  | cons delivery rest =>
    cases delivery with
    | failure error => rw [readToEnd, read]
    | chunk bytes =>
      by_cases short : bytes.length ≤ room
      · rw [read, if_pos short, readToEnd]
      · have first : bytes.take room ≠ [] := by
          intro none
          rcases List.take_eq_nil_iff.mp none with zero | empty
          · exact spacious zero
          · simp [empty] at short
        have others : bytes.drop room ≠ [] := by
          intro none
          have length := congrArg List.length none
          simp only [List.length_drop, List.length_nil] at length
          omega
        have whole : bytes ≠ [] := by
          rintro rfl
          simp at short
        rw [read, if_neg short]
        dsimp only
        rw [if_neg (by simpa using first), readToEnd_chunk_append rest whole,
          readToEnd_chunk_append rest others, ← List.append_assoc, List.take_append_drop]

/-! ### Buffers -/

theorem pieces_nil (capacity : Nat) : pieces capacity [] = [.chunk []] := by
  rw [pieces, dif_pos (Or.inr (by simp))]

theorem readToEnd_pieces_append {capacity : Nat} (room : capacity ≠ 0) {bytes : Bytes}
    (nonempty : bytes ≠ []) (rest : Source) :
    (pieces capacity bytes ++ rest).readToEnd = (bytes ++ rest.readToEnd.1, rest.readToEnd.2) := by
  fun_induction pieces capacity bytes with
  | case1 bytes => exact readToEnd_chunk_append rest nonempty
  | case2 bytes whole ih =>
    have more : bytes.drop capacity ≠ [] := by
      intro none
      exact whole (Or.inr (by simp [none]))
    have some : bytes.take capacity ≠ [] := by
      simp [room, nonempty]
    rw [List.cons_append, readToEnd_chunk_append _ some, ih more, ← List.append_assoc,
      List.take_append_drop]

/-- A buffer changes neither the data nor how it ends. -/
theorem readToEnd_buffered {capacity : Nat} (room : capacity ≠ 0) (source : Source) :
    (source.buffered capacity).readToEnd =
      (source.readToEnd.1, source.readToEnd.2.1, source.readToEnd.2.2.buffered capacity) := by
  simp only [buffered, if_neg room]
  induction source with
  | nil => rfl
  | cons delivery rest ih =>
    cases delivery with
    | failure error =>
      simp only [List.flatMap_cons, List.cons_append, List.nil_append, readToEnd]
      split
      · exact ih
      · rfl
    | chunk bytes =>
      rw [List.flatMap_cons]
      dsimp only
      by_cases nonempty : bytes = []
      · subst nonempty
        rw [pieces_nil]
        simp [readToEnd]
      · rw [readToEnd_pieces_append room nonempty, ih, readToEnd_chunk_append rest nonempty]

theorem Delivers.readToEnd_buffered {source : Source} {bytes : Bytes} {capacity : Nat}
    (h : source.Delivers bytes) (room : 1 ≤ capacity) :
    (source.buffered capacity).readToEnd = (bytes, none, []) := by
  rw [Source.readToEnd_buffered (Nat.ne_of_gt room), h.readToEnd]
  simp [buffered]

/-- A buffer without room shows nothing, and takes nothing of the data. -/
theorem Delivers.without_room {source : Source} {bytes : Bytes} (h : source.Delivers bytes) :
    (source.buffered 0).Delivers [] ∧ (source.untaken 0).Delivers bytes := by
  simp only [buffered, untaken, if_true]
  induction h with
  | done => exact ⟨.done, .done⟩
  | chunk nonempty rest _ =>
    rw [List.takeWhile_cons_of_neg (by simpa [Delivery.isIdle] using nonempty),
      List.dropWhile_cons_of_neg (by simpa [Delivery.isIdle] using nonempty)]
    exact ⟨.done, .chunk nonempty rest⟩
  | interruption interrupted _ ih =>
    rw [List.takeWhile_cons_of_pos rfl, List.dropWhile_cons_of_pos rfl]
    exact ⟨.interruption interrupted ih.1, ih.2⟩

end LinkArchive.Source
