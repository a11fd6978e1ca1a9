import Mathlib.Data.Int.Basic
import Mathlib.Data.List.TakeWhile

/-! Text as C handles it: `%d`, `atoi`, splitting at a separator, and prefixes of printed
numbers. -/

abbrev Text := List Char

namespace Text

/-! ## Numbers -/

def formatInt : Int → Text
  | .ofNat n => Nat.toDigits 10 n
  | .negSucc n => '-' :: Nat.toDigits 10 (n + 1)

def digitsOf (text : Text) : Int := Nat.ofDigitChars 10 (text.takeWhile Char.isDigit) 0

/-- The C function `atoi`, for numbers that fit an `int`. -/
def atoi (text : Text) : Int :=
  match text.dropWhile fun c => c ∈ [' ', '\t', '\n', '\x0b', '\x0c', '\x0d'] with
  | '-' :: rest => - digitsOf rest
  | '+' :: rest => digitsOf rest
  | rest => digitsOf rest

def short (n : Int) : Int := (n + 32768) % 65536 - 32768

theorem short_of_mem {n : Int} (hlo : -32768 ≤ n) (hhi : n ≤ 32767) : short n = n := by
  unfold short
  omega

theorem short_range (n : Int) : -32768 ≤ short n ∧ short n ≤ 32767 := by
  unfold short
  omega

theorem isDigit_toDigits {n : ℕ} {c : Char} (h : c ∈ Nat.toDigits 10 n) : c.isDigit :=
  Nat.isDigit_of_mem_toDigits (by decide) (by decide) h

theorem digitsOf_toDigits (n : ℕ) : digitsOf (Nat.toDigits 10 n) = n := by
  have hall : (Nat.toDigits 10 n).takeWhile Char.isDigit = Nat.toDigits 10 n :=
    List.takeWhile_eq_self_iff.mpr fun _ hc => isDigit_toDigits hc
  rw [digitsOf, hall, Nat.ofDigitChars_ten_toDigits]

theorem atoi_of_isDigit {c : Char} (hc : c.isDigit) (rest : Text) :
    atoi (c :: rest) = digitsOf (c :: rest) := by
  have hspace : c ∉ [' ', '\t', '\n', '\x0b', '\x0c', '\x0d'] := by
    intro hmem
    simp only [List.mem_cons, List.not_mem_nil, or_false] at hmem
    rcases hmem with rfl | rfl | rfl | rfl | rfl | rfl <;> exact absurd hc (by decide)
  rw [atoi, List.dropWhile_cons_of_neg (by simpa using hspace)]
  split
  · next heq => exact absurd hc (by rw [(List.cons.inj heq).1]; decide)
  · next heq => exact absurd hc (by rw [(List.cons.inj heq).1]; decide)
  · rfl

theorem atoi_toDigits (n : ℕ) : atoi (Nat.toDigits 10 n) = n := by
  have hn := digitsOf_toDigits n
  rcases h : Nat.toDigits 10 n with _ | ⟨c, rest⟩
  · exact absurd h Nat.toDigits_ne_nil
  · rw [h] at hn
    have hc : c.isDigit := isDigit_toDigits (n := n) (by simp [h])
    exact (atoi_of_isDigit hc rest).trans hn

theorem atoi_digit_mem {c : Char} (hc : c.isDigit) : 0 ≤ atoi [c] ∧ atoi [c] ≤ 9 := by
  rw [atoi_of_isDigit hc, digitsOf, List.takeWhile_cons_of_pos hc, List.takeWhile_nil,
    Nat.ofDigitChars_cons, Nat.ofDigitChars_nil]
  have hle : c.toNat ≤ 57 := (of_decide_eq_true (Bool.and_eq_true_iff.mp hc).2 : c.val ≤ '9'.val)
  have hzero : '0'.toNat = 48 := rfl
  omega

theorem atoi_take_one_mem (n : ℕ) :
    0 ≤ atoi ((formatInt n).take 1) ∧ atoi ((formatInt n).take 1) ≤ 9 := by
  change 0 ≤ atoi ((Nat.toDigits 10 n).take 1) ∧ atoi ((Nat.toDigits 10 n).take 1) ≤ 9
  rcases hdigits : Nat.toDigits 10 n with _ | ⟨c, rest⟩
  · exact absurd hdigits Nat.toDigits_ne_nil
  · exact atoi_digit_mem (isDigit_toDigits (n := n) (by simp [hdigits]))

theorem atoi_take_one_iff (n : ℕ) : atoi ((formatInt n).take 1) = n ↔ n ≤ 9 := by
  constructor
  · intro h
    have hle := (atoi_take_one_mem n).2
    omega
  · intro hle
    have hone : Nat.toDigits 10 n = [n.digitChar] := Nat.toDigits_of_lt_base (by omega)
    have hn := atoi_toDigits n
    change atoi ((Nat.toDigits 10 n).take 1) = n
    rw [hone] at hn ⊢
    exact hn

theorem atoi_formatInt (n : Int) : atoi (formatInt n) = n := by
  cases n with
  | ofNat n => exact atoi_toDigits n
  | negSucc n =>
    show - digitsOf (Nat.toDigits 10 (n + 1)) = _
    rw [digitsOf_toDigits]
    rfl

theorem formatInt_injective : Function.Injective formatInt := fun m n h =>
  (atoi_formatInt m).symm.trans ((congrArg atoi h).trans (atoi_formatInt n))

theorem formatInt_ne_nil (n : Int) : formatInt n ≠ [] := by
  cases n with
  | ofNat n => exact Nat.toDigits_ne_nil
  | negSucc n => nofun

theorem mem_formatInt {n : Int} {c : Char} (h : c ∈ formatInt n) : c = '-' ∨ c.isDigit := by
  cases n with
  | ofNat n => exact .inr (isDigit_toDigits h)
  | negSucc n =>
    obtain rfl | h := List.mem_cons.mp h
    exacts [.inl rfl, .inr (isDigit_toDigits h)]

theorem sharp_notMem_formatInt (n : Int) : '#' ∉ formatInt n := fun h => by
  obtain h | h := mem_formatInt h <;> exact absurd h (by decide)

/-! ## Separators -/

section
variable {α : Type*} {sep : α}

theorem head?_append_ne {field : List α} (rest : List α) (hne : field ≠ []) (hsep : sep ∉ field) :
    (field ++ rest).head? ≠ some sep := by
  rcases field with _ | ⟨a, field⟩
  · exact absurd rfl hne
  · rintro h
    exact hsep (by simp [Option.some.inj h])

theorem isPrefix_append_cons {x y rest : List α} (hx : sep ∉ x) :
    x <+: y ++ sep :: rest ↔ x <+: y := by
  refine ⟨fun h => ?_, fun h => h.trans (List.prefix_append _ _)⟩
  obtain hle | hlt := le_or_gt x.length y.length
  · exact List.prefix_of_prefix_length_le h (List.prefix_append _ _) hle
  · -- a longer prefix reaches the separator
    have hsep : y ++ [sep] <+: x := by
      apply List.prefix_of_prefix_length_le _ h (by simpa using Nat.succ_le_of_lt hlt)
      simp
    exact absurd (hsep.subset (by simp)) hx

variable [DecidableEq α]

def compress (sep : α) : List α → List α
  | a :: b :: rest =>
    if a = sep ∧ b = sep then compress sep (b :: rest) else a :: compress sep (b :: rest)
  | rest => rest

def split (sep : α) (text : List α) : List (List α) := (compress sep text).splitOn sep

theorem compress_append {field rest : List α} (hne : field ≠ []) (hsep : sep ∉ field)
    (hrest : compress sep rest = rest) (hhead : rest.head? ≠ some sep) :
    compress sep (field ++ sep :: rest) = field ++ sep :: rest := by
  induction field with
  | nil => exact absurd rfl hne
  | cons a field ih =>
    obtain ⟨ha, hfield⟩ := not_or.mp (mt List.mem_cons.mpr hsep)
    rcases field with _ | ⟨b, field⟩
    · -- the separator itself: what follows it is not another one
      have hrun : compress sep (sep :: rest) = sep :: rest := by
        rcases rest with _ | ⟨c, rest⟩
        · rfl
        · have hc : c ≠ sep := fun h => hhead (by simp [h])
          rw [compress, if_neg fun h => hc h.2, hrest]
      show compress sep (a :: sep :: rest) = a :: sep :: rest
      rw [compress, if_neg fun h => ha h.1.symm, hrun]
    · have htail := ih (by simp) hfield
      show compress sep (a :: b :: (field ++ sep :: rest)) = _
      rw [compress, if_neg fun h => ha h.1.symm]
      exact congrArg (a :: ·) htail

theorem compress_of_notMem {field : List α} (hsep : sep ∉ field) :
    compress sep field = field := by
  induction field using compress.induct sep with
  | case1 a b rest h => exact absurd (by simp [h.1]) hsep
  | case2 a b rest h ih => rw [compress, if_neg h, ih (fun hm => hsep (.tail _ hm))]
  | case3 rest h =>
    match rest with
    | [] => rfl
    | [_] => rfl
    | a :: b :: rest => exact absurd rfl (h a b rest)

theorem split_three {x y z : List α} (hx : x ≠ [] ∧ sep ∉ x) (hy : y ≠ [] ∧ sep ∉ y)
    (hz : z ≠ [] ∧ sep ∉ z) : split sep (x ++ sep :: (y ++ sep :: z)) = [x, y, z] := by
  have hyz : compress sep (y ++ sep :: z) = y ++ sep :: z :=
    compress_append hy.1 hy.2 (compress_of_notMem hz.2)
      (by simpa using head?_append_ne [] hz.1 hz.2)
  have hxyz : compress sep (x ++ sep :: (y ++ sep :: z)) = x ++ sep :: (y ++ sep :: z) :=
    compress_append hx.1 hx.2 hyz (head?_append_ne _ hy.1 hy.2)
  rw [split, hxyz, List.splitOn_append_cons_self_of_not_mem hx.2,
    List.splitOn_append_cons_self_of_not_mem hy.2, List.splitOn_eq_singleton hz.2]

def afterLast (sep : α) (text : List α) : List α := (text.reverse.takeWhile (· ≠ sep)).reverse

theorem afterLast_append {field rest : List α} (hsep : sep ∉ field) :
    afterLast sep (rest ++ sep :: field) = field := by
  have hall : ∀ a ∈ field.reverse, decide (a ≠ sep) = true := fun a ha => by
    have hne : a ≠ sep := fun h => hsep (h ▸ List.mem_reverse.mp ha)
    simpa using hne
  rw [afterLast, List.reverse_append, List.reverse_cons, List.append_assoc,
    List.takeWhile_append_of_pos hall]
  simp

theorem notMem_afterLast (text : List α) : sep ∉ afterLast sep text := fun h => by
  have := List.mem_takeWhile_imp (List.mem_reverse.mp h)
  simp at this

def words (sep : α) (text : List α) : List (List α) := (text.splitOn sep).filter (· ≠ [])

theorem words_flatMap {first : List α} {rest : List (List α)}
    (h : ∀ word ∈ first :: rest, word ≠ [] ∧ sep ∉ word) :
    words sep (first ++ rest.flatMap (sep :: ·)) = first :: rest := by
  obtain ⟨hne, hsep⟩ := h first List.mem_cons_self
  induction rest generalizing first with
  | nil =>
    rw [List.flatMap_nil, List.append_nil, words, List.splitOn_eq_singleton hsep,
      List.filter_cons_of_pos (by simpa using hne), List.filter_nil]
  | cons second rest ih =>
    obtain ⟨hne', hsep'⟩ := h second (List.mem_cons_of_mem _ List.mem_cons_self)
    have hwords := ih (fun word hword => h word (List.mem_cons_of_mem first hword)) hne' hsep'
    rw [words] at hwords ⊢
    rw [List.flatMap_cons, List.cons_append, List.splitOn_append_cons_self_of_not_mem hsep,
      List.filter_cons_of_pos (by simpa using hne), hwords]

end

end Text
