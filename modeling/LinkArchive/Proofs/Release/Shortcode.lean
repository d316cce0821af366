import LinkArchive.Release.Shortcode
import LinkArchive.Proofs.Text.Cut

/-!
# Cleaned shortcodes

What comes out of cleaning a path has no debris inside it: `Shortcode.clean_ofPath`. It can still
have some at its end, where a slash or a URL was cut off last, and these are just the codes that
cleaning once more would change: `Shortcode.ofPath_ofPath_eq_iff`. Nothing is cut off a code without
any debris: `Shortcode.ofPath_cleans_and_spares`.
-/

namespace LinkArchive.Shortcode

/-- A code without anything that cleaning looks for, its end aside. -/
structure Clean (code : List Char) : Prop where
  unslashed : code.head? ≠ some '/'
  unended : ∀ c ∈ code, c ∉ endsCode
  http_absent : ¬"http:/".toList <:+: code
  https_absent : ¬"https:/".toList <:+: code
  uncommon : String.ofList code ∉ commonFiles

/-- A code that ends with a character that cleaning takes away from the end of codes. -/
def EndsInDebris (code : List Char) : Prop :=
  ∃ c ∈ code.getLast?, isStop c = true ∨ isSlash c = true

/-! ### One cut after the other -/

/-- The code up to the first character that ends codes. -/
def unended (code : List Char) : List Char := code.takeWhile (!endsCode.contains ·)

/-- A code without stops and then without slashes at its end. -/
def trimmed (code : List Char) : List Char :=
  Text.dropTrailing isSlash (Text.dropTrailing isStop code)

/-- A code without a URL that follows it. -/
def urlless (code : List Char) : List Char :=
  Text.before "https:/".toList (Text.before "http:/".toList code)

theorem strip_eq (code : List Char) : strip code = urlless (trimmed (unended code)) := rfl

theorem unended_isPrefix (code : List Char) : unended code <+: code := List.takeWhile_prefix _

theorem trimmed_isPrefix (code : List Char) : trimmed code <+: code :=
  (Text.dropTrailing_isPrefix _ _).trans (Text.dropTrailing_isPrefix _ _)

theorem urlless_isPrefix (code : List Char) : urlless code <+: code :=
  (Text.before_isPrefix _ _).trans (Text.before_isPrefix _ _)

theorem strip_isPrefix_trimmed (code : List Char) : strip code <+: trimmed (unended code) :=
  urlless_isPrefix _

theorem strip_isPrefix (code : List Char) : strip code <+: code :=
  (strip_isPrefix_trimmed code).trans ((trimmed_isPrefix _).trans (unended_isPrefix code))

theorem not_ends_of_mem_unended {code : List Char} : ∀ c ∈ unended code, c ∉ endsCode := by
  intro c member
  have kept := List.mem_takeWhile_imp member
  simpa using kept

theorem unended_of_clean {code : List Char} (clean : ∀ c ∈ code, c ∉ endsCode) :
    unended code = code := by
  apply List.takeWhile_eq_self_iff.mpr
  intro c member
  simpa using clean c member

theorem urlless_of_clean {code : List Char} (http : ¬"http:/".toList <:+: code)
    (https : ¬"https:/".toList <:+: code) : urlless code = code := by
  rw [urlless, Text.before_of_not_infix http, Text.before_of_not_infix https]

theorem trimmed_of_fine {code : List Char} (fine : ¬EndsInDebris code) : trimmed code = code := by
  have last : ∀ c ∈ code.getLast?, isStop c = false ∧ isSlash c = false := by
    intro c last
    constructor
    · exact Bool.eq_false_iff.mpr fun stop => fine ⟨c, last, .inl stop⟩
    · exact Bool.eq_false_iff.mpr fun slash => fine ⟨c, last, .inr slash⟩
  have unstopped : Text.dropTrailing isStop code = code :=
    Text.dropTrailing_eq_self_iff.mpr fun c present => (last c present).1
  rw [trimmed, unstopped]
  exact Text.dropTrailing_eq_self_iff.mpr fun c present => (last c present).2

/-- Trimming a code that ends with debris takes something away. -/
theorem trimmed_ne_of_debris {code : List Char} (debris : EndsInDebris code) :
    trimmed code ≠ code := by
  intro same
  have unstopped : Text.dropTrailing isStop code = code := by
    have longer := (Text.dropTrailing_isPrefix isSlash (Text.dropTrailing isStop code)).length_le
    rw [show Text.dropTrailing isSlash (Text.dropTrailing isStop code) = code from same] at longer
    exact (Text.dropTrailing_isPrefix isStop code).eq_of_length_le longer
  rw [trimmed, unstopped] at same
  obtain ⟨c, last, stop | slash⟩ := debris
  · rw [Text.dropTrailing_eq_self_iff.mp unstopped c last] at stop
    cases stop
  · rw [Text.dropTrailing_eq_self_iff.mp same c last] at slash
    cases slash

theorem strip_ne_of_debris {code : List Char} (unended_eq : unended code = code)
    (debris : EndsInDebris code) : strip code ≠ code := by
  intro same
  have longer := (strip_isPrefix_trimmed code).length_le
  rw [same, unended_eq] at longer
  exact trimmed_ne_of_debris debris ((trimmed_isPrefix code).eq_of_length_le longer)

theorem exists_append_of_prefix {kept cut code start : List Char} (whole : kept ++ cut <+: code)
    (begins : start <+: cut) : ∃ rest, code = kept ++ rest ∧ start <+: rest := by
  obtain ⟨tail, rfl⟩ := whole
  exact ⟨cut ++ tail, List.append_assoc .., begins.trans (List.prefix_append ..)⟩

/-- A trimmed code that ends with debris has lost slashes, and stops stood before them. -/
theorem exists_trimmed_append {code : List Char} (debris : EndsInDebris (trimmed code)) :
    ∃ rest, trimmed code ++ rest <+: code ∧ "/".toList <+: rest := by
  have unslashed := Text.last_dropTrailing (p := isSlash) (Text.dropTrailing isStop code)
  have unstopped := Text.last_dropTrailing (p := isStop) code
  obtain ⟨slashes, whole, slash⟩ :=
    Text.exists_dropTrailing_append isSlash (Text.dropTrailing isStop code)
  have kept := Text.dropTrailing_isPrefix isStop code
  rw [whole] at kept unstopped
  refine ⟨slashes, kept, ?_⟩
  obtain ⟨c, last, stop | slash⟩ := debris
  · cases slashes with
    | cons first rest =>
      obtain rfl : first = '/' := by simpa [isSlash] using slash first List.mem_cons_self
      exact ⟨rest, rfl⟩
    | nil =>
      rw [List.append_nil] at unstopped
      rw [unstopped c last] at stop
      cases stop
  · rw [unslashed c last] at slash
    cases slash

/-- Debris at the end of a stripped code stood before a slash or a URL. -/
theorem exists_strip_append {code : List Char} (debris : EndsInDebris (strip code)) :
    ∃ rest, code = strip code ++ rest ∧
      ("/".toList <+: rest ∨ "http:/".toList <+: rest ∨ "https:/".toList <+: rest) := by
  let first := trimmed (unended code)
  let second := Text.before "http:/".toList first
  have kept : first <+: code := (trimmed_isPrefix _).trans (unended_isPrefix code)
  have kept_second : second <+: code := (Text.before_isPrefix _ _).trans kept
  obtain ⟨https, second_eq, none | begins⟩ := Text.exists_before_append "https:/".toList second
  · have second_eq : second = strip code := by rw [second_eq, none, List.append_nil]; rfl
    obtain ⟨http, first_eq, none | begins⟩ := Text.exists_before_append "http:/".toList first
    · have first_eq : first = strip code := by rw [first_eq, none, List.append_nil]; exact second_eq
      rw [← first_eq] at debris ⊢
      obtain ⟨slashes, whole, begins⟩ := exists_trimmed_append debris
      obtain ⟨rest, code_eq, begins⟩ :=
        exists_append_of_prefix (whole.trans (unended_isPrefix code)) begins
      exact ⟨rest, code_eq, .inl begins⟩
    · rw [first_eq] at kept
      obtain ⟨rest, code_eq, begins⟩ := exists_append_of_prefix kept begins
      rw [← second_eq]
      exact ⟨rest, code_eq, .inr (.inl begins)⟩
  · rw [second_eq] at kept_second
    obtain ⟨rest, code_eq, begins⟩ := exists_append_of_prefix kept_second begins
    exact ⟨rest, code_eq, .inr (.inr begins)⟩

/-! ### Paths -/

theorem ofPath_cases (path : String) :
    ofPath path = "" ∨
      (ofPath path).toList = strip (path.toList.dropWhile isSlash) ∧
        ofPath path ∉ commonFiles := by
  unfold ofPath
  dsimp only
  split
  · exact .inl rfl
  · split
    · exact .inl rfl
    · rename_i uncommon
      exact .inr ⟨String.toList_ofList, by simpa using uncommon⟩

theorem head_dropWhile_isSlash (code : List Char) :
    (code.dropWhile isSlash).head? ≠ some '/' := by
  intro slash
  have fine := List.head?_dropWhile_not isSlash code
  rw [slash] at fine
  cases fine

/-- Nothing that cleaning looks for is left in a cleaned code, its end aside. -/
theorem clean_ofPath (path : String) : Clean (ofPath path).toList := by
  rcases ofPath_cases path with none | ⟨stripped, uncommon⟩
  · rw [none]
    exact ⟨by decide, by simp, by decide, by decide, by decide⟩
  · have http := Text.not_infix_before (by decide : "http:/".toList ≠ [])
      (trimmed (unended (path.toList.dropWhile isSlash)))
    have https := Text.not_infix_before (by decide : "https:/".toList ≠ [])
      (Text.before "http:/".toList (trimmed (unended (path.toList.dropWhile isSlash))))
    refine ⟨?_, ?_, ?_, ?_, ?_⟩
    · intro slash
      rw [stripped] at slash
      obtain ⟨rest, whole⟩ := strip_isPrefix (path.toList.dropWhile isSlash)
      apply head_dropWhile_isSlash path.toList
      rw [← whole, List.head?_append, slash]
      rfl
    · intro c member
      rw [stripped] at member
      have kept := ((strip_isPrefix_trimmed _).trans (trimmed_isPrefix _)).subset member
      exact not_ends_of_mem_unended c kept
    · rw [stripped]
      exact fun inside => http (inside.trans (Text.before_isPrefix _ _).isInfix)
    · rw [stripped]
      exact https
    · rw [String.ofList_toList]
      exact uncommon

theorem isPlaceholder_of_unended {code : List Char} (unended : ∀ c ∈ code, c ∉ endsCode) :
    isPlaceholder code = false := by
  have last : ∀ c ∈ endsCode, code.getLast? ≠ some c := by
    intro c ends present
    exact unended c (List.mem_of_getLast? present) ends
  have angle := last '>' (by decide)
  have bracket := last ']' (by decide)
  simp [isPlaceholder, angle, bracket]

/-- A clean code that does not end with debris is found whole behind slashes. -/
theorem ofPath_of_clean {path code : String} (found : path.toList.dropWhile isSlash = code.toList)
    (clean : Clean code.toList) (fine : ¬EndsInDebris code.toList) : ofPath path = code := by
  have stripped : strip code.toList = code.toList := by
    rw [strip_eq, unended_of_clean clean.unended, trimmed_of_fine fine,
      urlless_of_clean clean.http_absent clean.https_absent]
  have uncommon := clean.uncommon
  rw [String.ofList_toList] at uncommon
  unfold ofPath
  simp only [found, isPlaceholder_of_unended clean.unended, stripped, String.ofList_toList]
  simp [uncommon]

theorem dropWhile_of_clean {code : List Char} (clean : Clean code) :
    code.dropWhile isSlash = code := by
  cases code with
  | nil => rfl
  | cons c rest =>
    have other : isSlash c = false := by
      have unslashed := clean.unslashed
      simpa [isSlash] using unslashed
    rw [List.dropWhile_cons_of_neg (by simp [other])]

theorem ofPath_ne_of_debris {code : String} (clean : Clean code.toList)
    (debris : EndsInDebris code.toList) : ofPath code ≠ code := by
  intro same
  rcases ofPath_cases code with none | ⟨stripped, -⟩
  · obtain ⟨c, last, -⟩ := debris
    rw [← same, none] at last
    cases last
  · rw [same, dropWhile_of_clean clean] at stripped
    exact strip_ne_of_debris (unended_of_clean clean.unended) debris stripped.symm

/-- Cleaning once is enough for just the paths whose cleaned code does not end with a stop or a
slash still. One that does stood before a slash or a URL, which was cut off after all else. -/
theorem ofPath_ofPath_eq_iff (path : String) :
    (ofPath (ofPath path) = ofPath path ↔ ¬EndsInDebris (ofPath path).toList) ∧
      (EndsInDebris (ofPath path).toList →
        ∃ rest, path.toList.dropWhile isSlash = (ofPath path).toList ++ rest ∧
          ("/".toList <+: rest ∨ "http:/".toList <+: rest ∨ "https:/".toList <+: rest)) := by
  have clean := clean_ofPath path
  refine ⟨⟨?_, ?_⟩, ?_⟩
  · intro settled debris
    exact ofPath_ne_of_debris clean debris settled
  · exact ofPath_of_clean (dropWhile_of_clean clean) clean
  · intro debris
    rcases ofPath_cases path with none | ⟨stripped, -⟩
    · obtain ⟨c, last, -⟩ := debris
      rw [none] at last
      cases last
    · rw [stripped] at debris ⊢
      exact exists_strip_append debris

/-- A stop before a slash and a stop before a URL are left, and taken away by cleaning again. -/
theorem ofPath_of_stop_before_slash :
    ofPath "abc./" = "abc." ∧ ofPath "abc.http://x" = "abc." ∧ ofPath "abc." = "abc" := by
  decide

/-! ### What is cut off and what is kept -/

theorem ofPath_isPrefix (path : String) :
    (ofPath path).toList <+: path.toList.dropWhile isSlash := by
  rcases ofPath_cases path with none | ⟨stripped, -⟩
  · rw [none]
    exact List.nil_prefix
  · rw [stripped]
    exact strip_isPrefix _

theorem dropWhile_replicate_append {code : List Char} (clean : Clean code) (slashes : Nat) :
    (List.replicate slashes '/' ++ code).dropWhile isSlash = code := by
  have all : ∀ c ∈ List.replicate slashes '/', isSlash c = true := by
    intro c member
    rw [List.eq_of_mem_replicate member]
    rfl
  rw [List.dropWhile_append_of_pos all]
  exact dropWhile_of_clean clean

/-- The code in a path is the beginning of it, behind the slashes, and clean. A clean code that does
not end with debris is the code in every path that has it behind slashes. -/
theorem ofPath_cleans_and_spares (path : String) :
    ((ofPath path).toList <+: path.toList.dropWhile isSlash ∧ Clean (ofPath path).toList) ∧
      ∀ code : String, Clean code.toList → ¬EndsInDebris code.toList →
        ∀ slashes, ofPath (String.ofList (List.replicate slashes '/' ++ code.toList)) = code := by
  refine ⟨⟨ofPath_isPrefix path, clean_ofPath path⟩, ?_⟩
  intro code clean fine slashes
  apply ofPath_of_clean _ clean fine
  rw [String.toList_ofList]
  exact dropWhile_replicate_append clean slashes

/-- A code with stops and slashes inside it and what looks like the beginning of a URL. -/
theorem ofPath_of_lookalike :
    let code := "a./b;http:x<é"
    Clean code.toList ∧ ¬EndsInDebris code.toList ∧
      ofPath (String.ofList (List.replicate 2 '/' ++ code.toList)) = code := by
  intro code
  have unended : code.toList.all (!endsCode.contains ·) = true := by decide +kernel
  have clean : Clean code.toList :=
    ⟨by decide +kernel, by simpa using unended, by decide +kernel, by decide +kernel,
      by decide +kernel⟩
  have last : code.toList.getLast? = some 'é' := by decide +kernel
  have fine : ¬EndsInDebris code.toList := by
    rintro ⟨c, present, debris⟩
    rw [last] at present
    obtain rfl := Option.some.inj present
    revert debris
    decide
  exact ⟨clean, fine, (ofPath_cleans_and_spares "").2 code clean fine 2⟩

end LinkArchive.Shortcode
