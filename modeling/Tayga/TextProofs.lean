import Tayga.Text

/-!
# Lines and tokens

A line that ends within the buffer is read whole (`fileLines_line`), and text without delimiters is one token
(`strtok_token`).
-/

namespace Tayga

/-! ### Lines -/

private theorem takeLine_length {n : Nat} (hn : 0 < n) (c : Char) (s : List Char) :
    (takeLine n (c :: s)).2.length ≤ s.length := by
  have key : ∀ (n : Nat) (s : List Char), (takeLine n s).2.length ≤ s.length := by
    intro n
    induction n with
    | zero => exact fun s => Nat.le_refl _
    | succ n ih =>
      intro s
      cases s with
      | nil => exact Nat.le_refl _
      | cons c s =>
        unfold takeLine
        split
        · exact Nat.le_succ _
        · exact Nat.le_succ_of_le (ih s)
  obtain ⟨n, rfl⟩ := Nat.exists_eq_succ_of_ne_zero (Nat.ne_of_gt hn)
  unfold takeLine
  split
  · exact Nat.le_refl _
  · exact key n s

/-- More passes than there are bytes find no more lines. -/
private theorem fgetsLines_fuel {s : List Char} {n m : Nat} (hn : s.length ≤ n) (hm : s.length ≤ m) :
    fgetsLines n s = fgetsLines m s := by
  induction n generalizing s m with
  | zero =>
    obtain rfl := List.length_eq_zero_iff.1 (Nat.le_zero.1 hn)
    cases m <;> rfl
  | succ n ih =>
    cases s with
    | nil => cases m <;> rfl
    | cons c s =>
      cases m with
      | zero => simp at hm
      | succ m =>
        have hl := takeLine_length (n := 511) (by omega) c s
        simp only [List.length_cons] at hn hm
        simp only [fgetsLines]
        rw [ih (s := (takeLine 511 (c :: s)).2) (m := m) (by omega) (by omega)]

/-- A line that fits its buffer is taken whole. -/
private theorem takeLine_line {n : Nat} {l : List Char} (hl : '\n' ∉ l) (hn : l.length < n) (s : List Char) :
    takeLine n (l ++ '\n' :: s) = (l ++ ['\n'], s) := by
  induction l generalizing n with
  | nil =>
    cases n with
    | zero => simp at hn
    | succ n => rfl
  | cons c l ih =>
    cases n with
    | zero => simp at hn
    | succ n =>
      rw [List.mem_cons, not_or] at hl
      simp only [List.length_cons] at hn
      rw [List.cons_append, takeLine, if_neg fun h => hl.1 h.symm, ih hl.2 (by omega)]
      rfl

/-- The lines of a file that starts with a line that fits the buffer. -/
theorem fileLines_line {l : List Char} (hl : '\n' ∉ l) (hn : l.length < 511) (s : List Char) :
    fileLines (l ++ '\n' :: s) = (l ++ ['\n']) :: fileLines s := by
  have hlen : (l ++ '\n' :: s).length = (l.length + s.length) + 1 := by
    rw [List.length_append, List.length_cons]
    omega
  have key : ∀ t : List Char, t ≠ [] → ∀ n, fgetsLines (n + 1) t =
      (takeLine 511 t).1 :: fgetsLines n (takeLine 511 t).2 := by
    intro t ht n
    cases t with
    | nil => exact absurd rfl ht
    | cons c t => rfl
  unfold fileLines
  rw [hlen, key _ (by simp), takeLine_line hl hn]
  simp only []
  rw [fgetsLines_fuel (m := s.length) (by omega) (Nat.le_refl _)]

/-! ### Tokens -/

/-- Text that `strtok_r` takes for one token. -/
structure Token (t : List Char) : Prop where
  ne_nil : t ≠ []
  plain : ∀ c ∈ t, isDelim c = false
  no_nul : '\x00' ∉ t

theorem Token.of_all {t : List Char} (hne : t ≠ []) (h : (t.all fun c => !isDelim c && c != '\x00') = true) : Token t
    := by
  simp only [List.all_eq_true, Bool.and_eq_true, Bool.not_eq_true', bne_iff_ne] at h
  exact ⟨hne, fun c hc => (h c hc).1, fun hc => (h _ hc).2 rfl⟩

/-- A token that ends at a delimiter. -/
theorem strtok_token {t : List Char} (ht : Token t) {d : Char} (hd : isDelim d = true) (s : List Char) :
    strtok [] (t ++ d :: s) = t :: strtok [] s := by
  have key : ∀ (t acc : List Char), (∀ c ∈ t, isDelim c = false) → acc.reverse ++ t ≠ [] →
      strtok acc (t ++ d :: s) = (acc.reverse ++ t) :: strtok [] s := by
    intro t
    induction t with
    | nil =>
      intro acc _ hne
      rw [List.append_nil] at hne ⊢
      rw [List.nil_append, strtok, if_pos hd, if_neg (by simpa using hne)]
    | cons c t ih =>
      intro acc hp _
      rw [List.cons_append, strtok, if_neg (by simp [hp c List.mem_cons_self]),
        ih (c :: acc) (fun c hc => hp c (List.mem_cons_of_mem _ hc)) (by simp)]
      simp
  exact key t [] ht.plain ht.ne_nil

/-- The string in a buffer goes on behind text without NUL. -/
theorem cstr_append {s : List Char} (h : '\x00' ∉ s) (t : List Char) : cstr (s ++ t) = s ++ cstr t := by
  unfold cstr
  rw [List.takeWhile_append_of_pos]
  intro c hc
  rw [decide_eq_true_eq]
  rintro rfl
  exact h hc

theorem cstr_of_no_nul {s : List Char} (h : '\x00' ∉ s) : cstr s = s := by
  have := cstr_append h []
  simpa [cstr] using this

end Tayga
