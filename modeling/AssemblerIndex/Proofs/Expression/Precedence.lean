import AssemblerIndex.Proofs.Expression.Grammar
import AssemblerIndex.Proofs.Expression.Reading

/-!
# Expressions have the values of their trees

Reading follows the precedence of the operators: where an operand ends, nothing comes that it would go on with.

* `sum_eq`, `quotient_eq`, `holds_compareValues` — the operations on words are those on whole numbers, wrapped;
* `further_operator`, `further_looser` — a loop goes on with the operators of its level and stops at looser ones;
* `Follows k` — what may stand behind an operand that binds as tight as `k`;
* `Reads e k s v` — the text is read there with the value; `reads_binary` and the `signed_` and `negation_` lemmas say
  so of each form of a tree, `Reads.loosen` of an operand where a looser one may stand;
* `evaluate_eq_value` — **an expression has the value of its tree**.
-/

namespace AssemblerIndex.Expression

/-! ### Values -/

theorem sum_eq (a b : Int32) : SetValue.arithmetic (a + b) = wrapped (a.toInt + b.toInt) := by
  rw [wrapped, Int32.ofInt_add, Int32.ofInt_toInt, Int32.ofInt_toInt]

theorem difference_eq (a b : Int32) : SetValue.arithmetic (a - b) = wrapped (a.toInt - b.toInt) := by
  rw [wrapped, Int32.ofInt_sub, Int32.ofInt_toInt, Int32.ofInt_toInt]

theorem product_eq (a b : Int32) : SetValue.arithmetic (a * b) = wrapped (a.toInt * b.toInt) := by
  rw [wrapped, Int32.ofInt_mul, Int32.ofInt_toInt, Int32.ofInt_toInt]

theorem quotient_eq (a b : Int32) :
    SetValue.arithmetic (quotient a b) = if b.toInt = 0 then wrapped 0 else wrapped (a.toInt.tdiv b.toInt) := by
  have h : quotient a b = Int32.ofInt (a.toInt.tdiv b.toInt) := by
    rw [Int32.ofInt_tdiv (Int32.minValue_le_toInt a) (Int32.toInt_le a) (Int32.minValue_le_toInt b) (Int32.toInt_le b),
      Int32.ofInt_toInt, Int32.ofInt_toInt]
    rfl
  rw [h]
  by_cases hb : b.toInt = 0
  · rw [if_pos hb, hb, Int.tdiv_zero]
    rfl
  · rw [if_neg hb]
    rfl

theorem compare_eq_lt_iff_contentBefore (s t : List Char) : compare s t = .lt ↔ contentBefore s t = true := by
  have hchar : ∀ c d : Char, compare c d = .lt ↔ c < d := fun c d => compareOfLessAndEq_eq_lt
  rw [List.compare_eq_compareLex]
  induction s generalizing t with
  | nil => cases t <;> simp [contentBefore, List.compareLex_nil_nil, List.compareLex_nil_cons]
  | cons c s ih =>
    cases t with
    | nil => simp [contentBefore, List.compareLex_cons_nil]
    | cons d t =>
      rw [List.compareLex_cons_cons, Ordering.then_eq_lt, hchar, Std.compare_eq_iff_eq]
      simp [contentBefore, ih]

theorem compareTexts_eq_lt (s t : List Char) :
    compareTexts s t = .lt ↔ less (.character s) (.character t) = true := by
  rw [compareTexts, Ordering.then_eq_lt, compare_eq_lt_iff_contentBefore, Nat.compare_eq_lt, Nat.compare_eq_eq]
  simp [less]

theorem compareTexts_eq_eq (s t : List Char) : compareTexts s t = .eq ↔ same (.character s) (.character t) = true := by
  rw [compareTexts, Ordering.then_eq_eq, Nat.compare_eq_eq, Std.compare_eq_iff_eq]
  simp only [same, beq_iff_eq, and_iff_right_iff_imp]
  exact congrArg List.length

theorem compareValues_eq_lt (a b : SetValue) : compareValues a b = .lt ↔ less a b = true := by
  cases a <;> cases b <;> first
    | exact compareTexts_eq_lt _ _
    | simp [compareValues, less, Int.compare_eq_lt]

theorem compareValues_eq_eq (a b : SetValue) : compareValues a b = .eq ↔ same a b = true := by
  cases a <;> cases b <;> first
    | exact compareTexts_eq_eq _ _
    | simp [compareValues, same]

theorem holds_compareValues (r : Relation) (a b : SetValue) : r.holds (compareValues a b) = r.between a b := by
  have hlt := compareValues_eq_lt a b
  have heq := compareValues_eq_eq a b
  cases h : compareValues a b <;> rw [h] at hlt heq <;> cases r <;>
    simp_all [Relation.holds, Relation.between]

/-! ### Operators in front -/

theorem keyword?_eq_none {w c : Char} (h : c.toUpper ≠ w) (word s : List Char) :
    keyword? (w :: word) (c :: s) = none := by
  simp [keyword?, h]

theorem after?_self (c : Char) (s : List Char) : after? c (c :: s) = some s := if_pos rfl

theorem after?_eq_none {c d : Char} (h : d ≠ c) (s : List Char) : after? c (d :: s) = none := if_neg h

/-- The character that an operator begins with behind its blank. -/
def Operator.front : Operator → Char
  | .or => 'O'
  | .xor => 'X'
  | .and => 'A'
  | .relation .eq => 'E'
  | .relation .ne => 'N'
  | .relation .le | .relation .lt => 'L'
  | .relation .ge | .relation .gt => 'G'
  | .plus => '+'
  | .minus => '-'
  | .times => '*'
  | .divided => '/'

theorem skip_word (op : Operator) (s : List Char) : ∃ t, skip (op.word ++ s) = op.front :: t := by
  rcases op with _ | _ | _ | ⟨_ | _ | _ | _ | _ | _⟩ | _ | _ | _ | _ <;> exact ⟨_, rfl⟩

/-- The characters that the operators of a level begin with, where they are read in a loop. -/
def fronts : Nat → List Char
  | 0 => ['O', 'X']
  | 1 => ['A']
  | 4 => ['+', '-']
  | 5 => ['*', '/']
  | _ => []

theorem front_notMem_fronts {op : Operator} {k : Nat} (h : op.level < k) : op.front.toUpper ∉ fronts k := by
  unfold fronts
  split
  · omega
  · rcases op with _ | _ | _ | ⟨_ | _ | _ | _ | _ | _⟩ | _ | _ | _ | _ <;> revert h <;> decide
  · rcases op with _ | _ | _ | ⟨_ | _ | _ | _ | _ | _⟩ | _ | _ | _ | _ <;> revert h <;> decide
  · rcases op with _ | _ | _ | ⟨_ | _ | _ | _ | _ | _⟩ | _ | _ | _ | _ <;> revert h <;> decide
  · exact List.not_mem_nil

section

variable {e : Environment} {k : Nat} {l r : SetValue} {s s' rest : List Char}

/-- A loop ends where no operator of its level begins. -/
theorem further_stops (h : ∀ c ∈ (skip rest).head?, c.toUpper ∉ fronts k) :
    (further e k l rest).out = (l, skip rest) := by
  have hkeyword : ∀ w word, w ∈ fronts k → keyword? (w :: word) (skip rest) = none := by
    intro w word hw
    cases hrest : skip rest with
    | nil => rfl
    | cons c t =>
      rw [hrest] at h
      exact keyword?_eq_none (fun hc => h c rfl (hc ▸ hw)) word t
  have hafter : ∀ w, w ∈ fronts k → w.toUpper = w → after? w (skip rest) = none := by
    intro w hw hupper
    cases hrest : skip rest with
    | nil => rfl
    | cons c t =>
      rw [hrest] at h
      exact after?_eq_none (fun hc => h c rfl (by rw [hc, hupper]; exact hw)) t
  unfold further
  split
  · rw [out_moreDisjuncts, hkeyword 'O' ['R'] (by decide), hkeyword 'X' ['O', 'R'] (by decide)]
  · rw [out_moreConjuncts, hkeyword 'A' ['N', 'D'] (by decide)]
  · rw [out_moreSummands, hafter '+' (by decide) rfl, hafter '-' (by decide) rfl]
  · rw [out_moreFactors, hafter '*' (by decide) rfl, hafter '/' (by decide) rfl]
  · rfl

/-- An operator that binds looser ends a loop. -/
theorem further_looser {op : Operator} (h : op.level < k) (s : List Char) :
    (further e k l (op.word ++ s)).out = (l, skip (op.word ++ s)) := by
  refine further_stops fun c hc => ?_
  obtain ⟨t, ht⟩ := skip_word op s
  rw [ht, List.head?_cons, Option.mem_some] at hc
  rw [← hc]
  exact front_notMem_fronts h

/-- What goes on behind the right operand depends only on what its reader gives. -/
theorem further_of_out (k : Nat) (f : SetValue → SetValue) {t : Taken SetValue s} (h : t.out = (r, skip s')) :
    (further e k (f t.value) t.rest).out = (further e k (f r) s').out := by
  obtain ⟨hvalue, hrest⟩ := out_eq.1 h
  rw [hvalue]
  exact further_congr k _ hrest

/-- A loop goes on with an operator of its level and its right operand. -/
theorem further_operator {op : Operator} (hop : op.level ≠ 3) (h : (reader e (op.level + 1) s).out = (r, skip s')) :
    (further e op.level l (op.word ++ s)).out = (further e op.level (op.value l r) s').out := by
  have hspace := (reader_congr (op.level + 1) (skip_space s)).trans h
  cases op with
  | or =>
    have hright : (conjunction e (' ' :: s)).out = (r, skip s') := hspace
    have hword : keyword? ['O', 'R'] (skip ([' ', 'O', 'R', ' '] ++ s)) = some (' ' :: s) := rfl
    show (moreDisjuncts e l ([' ', 'O', 'R', ' '] ++ s)).out = _
    rw [out_moreDisjuncts, hword]
    exact further_of_out 0 (fun r => .boolean (l.toBool || r.toBool)) hright
  | xor =>
    have hright : (conjunction e (' ' :: s)).out = (r, skip s') := hspace
    have hother : keyword? ['O', 'R'] (skip ([' ', 'X', 'O', 'R', ' '] ++ s)) = none := rfl
    have hword : keyword? ['X', 'O', 'R'] (skip ([' ', 'X', 'O', 'R', ' '] ++ s)) = some (' ' :: s) := rfl
    show (moreDisjuncts e l ([' ', 'X', 'O', 'R', ' '] ++ s)).out = _
    rw [out_moreDisjuncts, hother, hword]
    exact further_of_out 0 (fun r => .boolean (l.toBool != r.toBool)) hright
  | and =>
    have hright : (negation e (' ' :: s)).out = (r, skip s') := hspace
    have hword : keyword? ['A', 'N', 'D'] (skip ([' ', 'A', 'N', 'D', ' '] ++ s)) = some (' ' :: s) := rfl
    show (moreConjuncts e l ([' ', 'A', 'N', 'D', ' '] ++ s)).out = _
    rw [out_moreConjuncts, hword]
    exact further_of_out 1 (fun r => .boolean (l.toBool && r.toBool)) hright
  | relation r => exact absurd rfl hop
  | plus =>
    have hright : (product e s).out = (r, skip s') := h
    show (moreSummands e l ('+' :: s)).out = _
    rw [out_moreSummands, skip_cons (by decide), after?_self, Operator.value, ← sum_eq]
    exact further_of_out 4 (fun r => .arithmetic (l.toWord + r.toWord)) hright
  | minus =>
    have hright : (product e s).out = (r, skip s') := h
    show (moreSummands e l ('-' :: s)).out = _
    rw [out_moreSummands, skip_cons (by decide), after?_eq_none (by decide), after?_self, Operator.value,
      ← difference_eq]
    exact further_of_out 4 (fun r => .arithmetic (l.toWord - r.toWord)) hright
  | times =>
    have hright : (signed e s).out = (r, skip s') := h
    show (moreFactors e l ('*' :: s)).out = _
    rw [out_moreFactors, skip_cons (by decide), after?_self, Operator.value, ← product_eq]
    exact further_of_out 5 (fun r => .arithmetic (l.toWord * r.toWord)) hright
  | divided =>
    have hright : (signed e s).out = (r, skip s') := h
    show (moreFactors e l ('/' :: s)).out = _
    rw [out_moreFactors, skip_cons (by decide), after?_eq_none (by decide), after?_self, Operator.value, ← quotient_eq]
    exact further_of_out 5 (fun r => .arithmetic (quotient l.toWord r.toWord)) hright

theorem relation?_word (r : Relation) (s : List Char) :
    relation? (skip ((Operator.relation r).word ++ s)) relationWords = some (r, ' ' :: s) := by
  cases r <;> rfl

/-- A relation between two sums. -/
theorem comparison_relation {op : Relation} (hl : (sum e s).out = (l, skip ((Operator.relation op).word ++ s')))
    (hr : (sum e s').out = (r, skip rest)) :
    (comparison e s).out = ((Operator.relation op).value l r, skip rest) := by
  obtain ⟨hleft, hbehind⟩ := out_eq.1 hl
  have hspace : (sum e (' ' :: s')).out = (sum e s').out := reader_congr 4 (skip_space s')
  obtain ⟨hright, hrest⟩ := out_eq.1 (hspace.trans hr)
  rw [out_comparison, hbehind, relation?_word, Operator.value, ← holds_compareValues]
  simp only [hleft, hright, hrest]

theorem relation?_eq_none {c : Char} (h : c.toUpper ∉ ['E', 'N', 'L', 'G']) (s : List Char) :
    relation? (c :: s) relationWords = none := by
  simp only [List.mem_cons, List.not_mem_nil, or_false, not_or] at h
  obtain ⟨he, hn, hl, hg⟩ := h
  simp [relationWords, relation?, keyword?_eq_none he, keyword?_eq_none hn, keyword?_eq_none hl, keyword?_eq_none hg]

end

/-! ### Characters -/

theorem toUpper_of_capital {c : Char} (h : c.isUpper ∨ c.isDigit ∨ c ∈ ['@', '#', '$', '_']) : c.toUpper = c := by
  rcases h with h | h | h
  · unfold Char.isUpper at h
    unfold Char.toUpper
    grind
  · unfold Char.isDigit at h
    unfold Char.toUpper
    grind
  · simp only [List.mem_cons, List.not_mem_nil, or_false] at h
    rcases h with rfl | rfl | rfl | rfl <;> rfl

theorem isNameChar_of_capital {c : Char} (h : c.isUpper ∨ c.isDigit ∨ c ∈ ['@', '#', '$', '_']) :
    isNameChar c = true := by
  unfold isNameChar Char.isAlphanum Char.isAlpha
  simp only [Bool.or_eq_true, decide_eq_true_eq]
  rcases h with h | h | h
  · exact .inl (.inl (.inl h))
  · exact .inl (.inr h)
  · exact .inr h

theorem not_isNameStart_of_isDigit {c : Char} (h : c.isDigit = true) : isNameStart c = false := by
  refine Bool.or_eq_false_iff.2 ⟨?_, decide_eq_false fun hmem => ?_⟩
  · unfold Char.isDigit at h
    unfold Char.isAlpha Char.isUpper Char.isLower
    grind
  · simp only [List.mem_cons, List.not_mem_nil, or_false] at hmem
    rcases hmem with rfl | rfl | rfl | rfl <;> exact absurd h (by decide)

/-- The character may begin a term; no word operator begins with it. -/
def startsTerm (c : Char) : Bool := c.isDigit || c ∈ ['&', '(', '+', '-']

theorem ne_of_startsTerm {c : Char} (h : startsTerm c = true) : c ≠ ' ' ∧ c.toUpper ≠ 'N' := by
  unfold startsTerm at h
  rw [Bool.or_eq_true, decide_eq_true_eq] at h
  rcases h with h | h
  · rw [toUpper_of_capital (.inr (.inl h))]
    constructor <;> · rintro rfl; exact absurd h (by decide)
  · simp only [List.mem_cons, List.not_mem_nil, or_false] at h
    rcases h with rfl | rfl | rfl | rfl <;> decide

/-! ### Terms -/

section

variable {e : Environment} {v : SetValue} {s rest : List Char}

theorem signed_term {c : Char} (hspace : c ≠ ' ') (hminus : c ≠ '-') (hplus : c ≠ '+')
    (hname : isNameStart c = false) (s : List Char) : (signed e (c :: s)).out = (plainTerm e (c :: s)).out := by
  have hattribute : attribute? (c :: s) = none := by
    unfold attribute?
    split
    · rename_i heq
      obtain ⟨rfl, rfl⟩ := List.cons.inj heq
      simp [hname]
    · rfl
  rw [out_signed, skip_cons hspace, after?_eq_none hminus, after?_eq_none hplus]
  show (term e (c :: s)).out = _
  rw [term]
  split
  · rename_i heq
    rw [hattribute] at heq
    cases heq
  · rfl

theorem digit?_of_isDigit {c : Char} (h : c.isDigit = true) :
    SelfDefiningTerm.digit? 10 c = some (c.toNat - '0'.toNat) := by
  have hc : '0' ≤ c ∧ c ≤ '9' := by
    simp only [Char.isDigit, Bool.and_eq_true, decide_eq_true_eq] at h
    exact h
  have hlt : c.toNat - '0'.toNat < 10 := by
    have : c.toNat ≤ '9'.toNat := hc.2
    have : '9'.toNat = 57 := rfl
    have : '0'.toNat = 48 := rfl
    omega
  rw [SelfDefiningTerm.digit?, if_pos hc, Option.filter_some, if_pos (by simpa using hlt)]

theorem digits?_of_isDigit {ds : List Char} (hne : ds ≠ []) (hds : ∀ c ∈ ds, c.isDigit = true) :
    SelfDefiningTerm.digits? 10 ds = some (Nat.ofDigitChars 10 ds 0) := by
  have hfold : ∀ ds : List Char, (∀ c ∈ ds, c.isDigit = true) → ∀ m,
      ds.foldlM (fun n c => (SelfDefiningTerm.digit? 10 c).map (n * 10 + ·)) m = some (Nat.ofDigitChars 10 ds m) := by
    intro ds hds
    induction ds with
    | nil => exact fun m => rfl
    | cons c ds ih =>
      intro m
      obtain ⟨hc, hds⟩ := List.forall_mem_cons.1 hds
      rw [List.foldlM_cons, digit?_of_isDigit hc, Nat.ofDigitChars_cons, Nat.mul_comm 10]
      exact ih hds _
  unfold SelfDefiningTerm.digits?
  rw [if_neg (by simp [hne]), hfold ds hds]

theorem termValue_digits {ds : List Char} (hne : ds ≠ []) (hds : ∀ c ∈ ds, c.isDigit = true)
    (h : Nat.ofDigitChars 10 ds 0 < 2147483648) : termValue ds = wrapped (Nat.ofDigitChars 10 ds 0 : Nat) := by
  have hdigits : ds ≠ [] ∧ ds.all Char.isDigit = true := ⟨hne, List.all_eq_true.2 hds⟩
  rw [termValue, SelfDefiningTerm.value?, if_pos hdigits, digits?_of_isDigit hne hds]
  dsimp only
  rw [if_pos h, wrapped, Int32.ofInt_eq_ofNat]
  rfl

theorem isDigit_of_mem_decimalDigits {n : Nat} {c : Char} (h : c ∈ decimalDigits n) : c.isDigit = true :=
  Nat.isDigit_of_mem_toDigits (by decide) (by decide) h

/-- A text that no digit follows is taken as a whole. -/
theorem takeWhile_append_of_stop {p : Char → Bool} (hs : ∀ c ∈ s, p c = true) (hrest : ∀ c ∈ rest.head?, p c = false) :
    (s ++ rest).takeWhile p = s ∧ (s ++ rest).dropWhile p = rest := by
  rw [List.takeWhile_append_of_pos hs, List.dropWhile_append_of_pos hs]
  cases rest with
  | nil => simp
  | cons c rest => simp [hrest c rfl]

theorem signed_digits {ds : List Char} (hne : ds ≠ []) (hds : ∀ c ∈ ds, c.isDigit = true)
    (h : Nat.ofDigitChars 10 ds 0 < 2147483648) (hrest : ∀ c ∈ rest.head?, c.isDigit = false) :
    (signed e (ds ++ rest)).out = (wrapped (Nat.ofDigitChars 10 ds 0 : Nat), skip rest) := by
  have hvalue := termValue_digits hne hds h
  obtain ⟨htake, hdrop⟩ := takeWhile_append_of_stop hds hrest
  obtain ⟨c, t, rfl⟩ := List.exists_cons_of_ne_nil hne
  have hc : c.isDigit = true := hds c List.mem_cons_self
  have hdiffers : ∀ d : Char, d.isDigit = false → c ≠ d := by
    rintro d hd rfl
    rw [hd] at hc
    cases hc
  rw [List.cons_append] at htake hdrop ⊢
  rw [signed_term (hdiffers _ rfl) (hdiffers _ rfl) (hdiffers _ rfl) (not_isNameStart_of_isDigit hc), plainTerm]
  · rw [if_pos hc]
    show (termValue ((c :: (t ++ rest)).takeWhile Char.isDigit), skip ((c :: (t ++ rest)).dropWhile Char.isDigit)) = _
    rw [htake, hdrop, hvalue]
  · exact hdiffers _ rfl
  · exact hdiffers _ rfl
  · exact hdiffers _ rfl

theorem signed_literal {n : Nat} (h : n < 2147483648) (hrest : ∀ c ∈ rest.head?, c.isDigit = false) :
    (signed e (decimalDigits n ++ rest)).out = (wrapped n, skip rest) := by
  have hn : Nat.ofDigitChars 10 (decimalDigits n) 0 = n := Nat.ofDigitChars_ten_toDigits
  have hread : (signed e (decimalDigits n ++ rest)).out =
      (wrapped (Nat.ofDigitChars 10 (decimalDigits n) 0 : Nat), skip rest) :=
    signed_digits Nat.toDigits_ne_nil (fun c hc => isDigit_of_mem_decimalDigits hc) (hn.symm ▸ h) hrest
  rwa [hn] at hread

theorem reference_eq (h : after? '(' (takeName s).rest = none) :
    (reference e s).value = ⟨e.visible? (takeName s).value, []⟩ ∧ (reference e s).rest = (takeName s).rest := by
  rw [reference]
  dsimp only
  split
  · rename_i heq
    rw [h] at heq
    cases heq
  · exact ⟨rfl, rfl⟩

theorem signed_symbol {name : List Char} (hname : IsCapitalName name) (hrest : ∀ c ∈ rest.head?, isNameChar c = false)
    (hsubscript : after? '(' rest = none) :
    (signed e ('&' :: name ++ rest)).out =
      ((Reference.mk (e.visible? (String.ofList name)) []).value, skip rest) := by
  obtain ⟨-, hchars, -⟩ := hname
  obtain ⟨htake, hdrop⟩ := takeWhile_append_of_stop (fun c hc => isNameChar_of_capital (hchars c hc)) hrest
  have hupper : name.map Char.toUpper = name :=
    (List.map_congr_left fun c hc => toUpper_of_capital (hchars c hc)).trans (List.map_id' name)
  have hvalue : (takeName (name ++ rest)).value = String.ofList name := by
    show String.ofList (((name ++ rest).takeWhile isNameChar).map Char.toUpper) = _
    rw [htake, hupper]
  have hbehind : (takeName (name ++ rest)).rest = rest := hdrop
  obtain ⟨hreference, hleft⟩ := reference_eq (e := e) (hbehind ▸ hsubscript)
  rw [List.cons_append, signed_term (by decide) (by decide) (by decide) (by decide), plainTerm]
  show ((reference e (name ++ rest)).value.value, skip (reference e (name ++ rest)).rest) = _
  rw [hreference, hleft, hvalue, hbehind]

theorem takeChar_rest {c : Char} (h : skip s = c :: rest) : (takeChar c s).rest = rest := by
  show (takeNext c (skip s)).rest = rest
  have hafter : after? c (skip s) = some rest := by rw [h, after?_self]
  unfold takeNext
  split
  · rename_i heq
    exact Option.some.inj (heq.symm.trans hafter)
  · rename_i heq
    rw [hafter] at heq
    cases heq

theorem signed_parentheses (h : (expression e (s ++ ')' :: rest)).out = (v, ')' :: rest)) :
    (signed e ('(' :: s ++ [')'] ++ rest)).out = (v, skip rest) := by
  obtain ⟨hvalue, hrest⟩ := out_eq.1 h
  rw [List.append_assoc, List.cons_append, signed_term (by decide) (by decide) (by decide) (by decide), plainTerm]
  show ((expression e (s ++ ')' :: rest)).value, skip (takeChar ')' (expression e (s ++ ')' :: rest)).rest).rest) = _
  rw [hvalue, takeChar_rest hrest]

theorem signed_sign {sign : Sign} (h : (signed e s).out = (v, skip rest)) :
    (signed e (sign.char :: s)).out = (sign.value v, skip rest) := by
  obtain ⟨hvalue, hrest⟩ := out_eq.1 h
  cases sign with
  | plus =>
    rw [out_signed, Sign.char, skip_cons (by decide), after?_eq_none (by decide), after?_self]
    simp only [hvalue, hrest, Sign.value, wrapped, Int32.ofInt_toInt]
  | minus =>
    rw [out_signed, Sign.char, skip_cons (by decide), after?_self]
    simp only [hvalue, hrest, Sign.value, wrapped, Int32.ofInt_neg, Int32.ofInt_toInt]

theorem negation_not (blanks : Nat) (h : (negation e s).out = (v, skip rest)) :
    (negation e (List.replicate blanks ' ' ++ ['N', 'O', 'T', ' '] ++ s)).out = (.boolean !v.toBool, skip rest) := by
  have hskip : skip (List.replicate blanks ' ' ++ ['N', 'O', 'T', ' '] ++ s) = ['N', 'O', 'T', ' '] ++ s := by
    induction blanks with
    | zero => rfl
    | succ n ih => exact ih
  have hword : keyword? ['N', 'O', 'T'] (['N', 'O', 'T', ' '] ++ s) = some (' ' :: s) := rfl
  have hspace : (negation e (' ' :: s)).out = (negation e s).out := reader_congr 2 (skip_space s)
  obtain ⟨hvalue, hrest⟩ := out_eq.1 (hspace.trans h)
  rw [out_negation, hskip, hword]
  simp only [hvalue, hrest]

theorem negation_comparison {c : Char} (hc : startsTerm c = true) (s : List Char) :
    (negation e (c :: s)).out = (comparison e (c :: s)).out := by
  obtain ⟨hspace, hnot⟩ := ne_of_startsTerm hc
  rw [out_negation, skip_cons hspace, keyword?_eq_none hnot]

end

/-! ### What may follow -/

/-- An operand that binds as tight as `k` ends in front of this: at the end, at a closing parenthesis, or at an operator
that it may be the left operand of, or a part of such an operand. -/
inductive Follows (k : Nat) : List Char → Prop
  | stop : Follows k []
  | closing (s : List Char) : Follows k (')' :: s)
  | operator {op : Operator} (hop : op.leftLevel ≤ k) (s : List Char) : Follows k (op.word ++ s)

theorem Operator.level_le_leftLevel (op : Operator) : op.level ≤ op.leftLevel := by
  cases op with
  | relation r => exact Nat.le_succ 3
  | _ => exact Nat.le_refl _

theorem Operator.leftLevel_of_ne {op : Operator} (h : op.level ≠ 3) : op.leftLevel = op.level := by
  cases op <;> first | rfl | exact absurd rfl h

section

variable {e : Environment} {k : Nat} {v : SetValue} {s rest : List Char}

theorem Follows.mono (h : Follows k rest) : Follows (k + 1) rest := by
  cases h with
  | stop => exact .stop
  | closing s => exact .closing s
  | operator hop s => exact .operator (Nat.le_succ_of_le hop) s

theorem Follows.head (h : Follows k rest) : ∀ c ∈ rest.head?, c ∈ [')', ' ', '+', '-', '*', '/'] := by
  intro c hc
  cases h with
  | stop => cases hc
  | closing s =>
    cases hc
    decide
  | @operator op _ s =>
    cases op <;> cases hc <;> decide

/-- The characters that end an expression. -/
def closings : List Char := [')', ',']

theorem closing_notMem_fronts {c : Char} (h : c ∈ closings) (k : Nat) : c.toUpper ∉ fronts k := by
  simp only [closings, List.mem_cons, List.not_mem_nil, or_false] at h
  unfold fronts
  rcases h with rfl | rfl <;> split <;> decide

/-- Nothing goes on at the end or at a character that ends an expression. -/
theorem further_end (h : ∀ c ∈ (skip rest).head?, c ∈ closings) : (further e k v rest).out = (v, skip rest) :=
  Expression.further_stops fun c hc => closing_notMem_fronts (h c hc) k

/-- No operator of the next level comes next. -/
theorem Follows.further_stops (h : Follows k rest) : (further e (k + 1) v rest).out = (v, skip rest) := by
  cases h with
  | stop => exact further_end (by simp)
  | closing s => exact further_end (by simp [skip_cons, closings])
  | operator hop s => exact further_looser (Nat.lt_succ_of_le (Nat.le_trans (Operator.level_le_leftLevel _) hop)) s

/-- No relation comes next. -/
theorem Follows.relation?_eq_none (h : Follows 3 rest) : relation? (skip rest) relationWords = none := by
  cases h with
  | stop => rfl
  | closing s => rfl
  | @operator op hop s =>
    obtain ⟨t, ht⟩ := skip_word op s
    rw [ht]
    refine Expression.relation?_eq_none ?_ t
    cases op with
    | relation r => exact absurd (show 4 ≤ 3 from hop) (by decide)
    | _ => decide

/-! ### Operands -/

/-- The text is read as an operand that binds as tight as `k`: with operators of this level behind it, it is the left
operand of the first. -/
def Reads (e : Environment) (k : Nat) (s : List Char) (v : SetValue) : Prop :=
  ∀ rest, Follows k rest → (reader e k (s ++ rest)).out = (further e k v rest).out

/-- The text begins with a term. -/
def BeginsTerm (s : List Char) : Prop := ∃ c t, s = c :: t ∧ startsTerm c = true

/-- Where an operand binds tighter than it must, the reader takes it as a whole. -/
theorem Reads.loosen_one (h : Reads e (k + 1) s v) (hk : k ≤ 5) (hs : k = 2 → BeginsTerm s) : Reads e k s v := by
  intro rest hrest
  have htight := (h rest hrest.mono).trans hrest.further_stops
  match k with
  | 0 => exact reader_of_tighter (by decide) htight
  | 1 => exact reader_of_tighter (by decide) htight
  | 2 =>
    obtain ⟨c, t, rfl, hc⟩ := hs rfl
    exact (negation_comparison hc (t ++ rest)).trans htight
  | 3 =>
    obtain ⟨-, hbehind⟩ := out_eq.1 (show (sum e (s ++ rest)).out = (v, skip rest) from htight)
    show (comparison e (s ++ rest)).out = _
    rw [out_comparison, hbehind, hrest.relation?_eq_none]
    exact htight
  | 4 => exact reader_of_tighter (by decide) htight
  | 5 => exact reader_of_tighter (by decide) htight
  | _ + 6 => omega

theorem Reads.loosen {j : Nat} (h : Reads e j s v) (hj : j ≤ 6) (hk : k ≤ j) (hs : 2 < j → BeginsTerm s) :
    Reads e k s v := by
  obtain ⟨d, rfl⟩ := Nat.exists_eq_add_of_le hk
  induction d generalizing k with
  | zero => exact h
  | succ d ih =>
    have hnext : Reads e (k + 1) s v := ih (by rwa [Nat.add_right_comm, Nat.add_assoc]) (by omega) (by omega)
      (fun hd => hs (by omega))
    exact hnext.loosen_one (by omega) fun h2 => hs (by omega)

/-- An operand that binds tighter than `NOT` begins with a term. -/
theorem beginsTerm_of_written {t : Tree} (h : Written k t s) (hk : 2 < k ∨ 2 < t.level) : BeginsTerm s := by
  induction h with
  | @literal k n =>
    obtain ⟨c, ds, hds⟩ := List.exists_cons_of_ne_nil (show decimalDigits n ≠ [] from Nat.toDigits_ne_nil)
    have hc : c.isDigit = true := isDigit_of_mem_decimalDigits (by rw [hds]; exact List.mem_cons_self)
    exact ⟨c, ds, hds, by rw [startsTerm, hc, Bool.true_or]⟩
  | symbol => exact ⟨'&', _, rfl, rfl⟩
  | @signed k sign t s hsign _ _ => exact ⟨sign.char, s, rfl, by cases sign <;> rfl⟩
  | @binary k op l r s s' hop _ _ ihl _ =>
    have hlevel : 2 < op.level := hk.elim (fun hk => Nat.lt_of_lt_of_le hk hop) id
    obtain ⟨c, t, rfl, hc⟩ := ihl (.inl (Nat.lt_of_lt_of_le hlevel op.level_le_leftLevel))
    exact ⟨c, t ++ op.word ++ s', rfl, hc⟩
  | not blanks hnot => exact absurd hk (by simp only [Tree.level]; omega)
  | parentheses => exact ⟨'(', _, rfl, rfl⟩

/-- A binary operator reads its operands. -/
theorem reads_binary {op : Operator} {l r : SetValue} {s s' : List Char} (hl : Reads e op.leftLevel s l)
    (hr : Reads e (op.level + 1) s' r) : Reads e op.level (s ++ op.word ++ s') (op.value l r) := by
  intro rest hrest
  have hleft := hl (op.word ++ (s' ++ rest)) (.operator (Nat.le_refl _) _)
  have hright := (hr rest hrest.mono).trans hrest.further_stops
  rw [List.append_assoc, List.append_assoc]
  by_cases hop : op.level = 3
  · cases op with
    | relation op =>
      have hsum : (sum e (s ++ ((Operator.relation op).word ++ (s' ++ rest)))).out = _ :=
        hleft.trans (further_looser (show (Operator.relation op).level < 4 from Nat.lt_succ_self 3) _)
      exact comparison_relation hsum hright
    | _ => exact absurd hop (by decide)
  · rw [Operator.leftLevel_of_ne hop] at hleft
    exact hleft.trans (further_operator hop hright)

variable {x : Context}

/-- Every operand is read with the value of its tree. -/
theorem reads_of_written {t : Tree} (h : Written k t s) (hk : k ≤ 6) (ht : t.Admissible x) :
    Reads (environment x) k s (t.value x) := by
  induction h with
  | @literal k n =>
    refine Reads.loosen (j := 6) ?_ (Nat.le_refl 6) hk fun _ =>
      beginsTerm_of_written (k := 7) .literal (.inl (by decide))
    intro rest hrest
    refine signed_literal ht fun c hc => ?_
    have hfollows : [')', ' ', '+', '-', '*', '/'].all (!·.isDigit) = true := by decide
    simpa using List.all_eq_true.1 hfollows c (hrest.head c hc)
  | @symbol k name =>
    obtain ⟨hname, symbol, hsymbol, hscalar⟩ := ht
    refine Reads.loosen (j := 6) ?_ (Nat.le_refl 6) hk fun _ =>
      beginsTerm_of_written (k := 7) .symbol (.inl (by decide))
    intro rest hrest
    have hall : [')', ' ', '+', '-', '*', '/'].all (fun d => !isNameChar d && d != '(') = true := by decide +kernel
    have hfollows : ∀ d ∈ [')', ' ', '+', '-', '*', '/'], isNameChar d = false ∧ d ≠ '(' := fun d hd => by
      simpa only [Bool.and_eq_true, Bool.not_eq_true', bne_iff_ne] using List.all_eq_true.1 hall d hd
    have hsubscript : after? '(' rest = none := by
      cases rest with
      | nil => rfl
      | cons c rest => exact after?_eq_none (hfollows c (hrest.head c rfl)).2 rest
    have hread := signed_symbol (e := environment x) hname (fun c hc => (hfollows c (hrest.head c hc)).1) hsubscript
    have hvalue : (Reference.mk ((environment x).visible? (String.ofList name)) []).value = scalarValue x name := by
      rw [scalarValue, hsymbol, show (environment x).visible? (String.ofList name) = _ from hsymbol]
      simp [Reference.value, Variable.value, SetSymbol.value]
    rw [hvalue] at hread
    exact hread
  | @signed k sign t s hsign hs ih =>
    refine Reads.loosen (j := 6) ?_ (Nat.le_refl 6) hk fun _ =>
      beginsTerm_of_written (k := 6) (.signed (Nat.le_refl 6) hs) (.inl (by decide))
    intro rest hrest
    exact signed_sign (ih (Nat.le_refl 6) ht rest hrest)
  | @binary k op l r s s' hop hl hr ihl ihr =>
    have hlevel : op.level ≤ 5 := by cases op <;> simp [Operator.level]
    have hleft : op.leftLevel ≤ 6 := by cases op <;> simp [Operator.leftLevel, Operator.level]
    refine (reads_binary (ihl hleft ht.1) (ihr (by omega) ht.2)).loosen (by omega) hop fun hloose => ?_
    exact beginsTerm_of_written (.binary (Nat.le_refl op.level) hl hr) (.inl hloose)
  | not blanks hnot _ ih =>
    refine Reads.loosen (j := 2) ?_ (by decide) hnot fun h => absurd h (by decide)
    intro rest hrest
    have hread := negation_not blanks (ih (by decide) ht rest hrest)
    rw [← List.append_assoc] at hread
    exact hread
  | parentheses hlevel _ ih =>
    refine Reads.loosen (j := 6) ?_ (Nat.le_refl 6) hk fun _ => ⟨'(', _, rfl, rfl⟩
    intro rest _
    have hinner := ih (Nat.zero_le 6) ht (')' :: rest) (.closing rest)
    exact signed_parentheses (hinner.trans (further_end (by simp [skip_cons, closings])))

end

/-! ### Expressions -/

/-- **An expression has the value of its tree**, however many blanks stand in front of each `NOT`. -/
theorem evaluate_eq_value (x : Context) (t : Tree) (ht : t.Admissible x) :
    Written 0 t (t.text 0) ∧ ∀ s, Written 0 t s → evaluate x s = t.value x := by
  refine ⟨written_text t 0, fun s hs => ?_⟩
  have hread := reads_of_written hs (Nat.zero_le 6) ht [] .stop
  rw [List.append_nil] at hread
  exact (out_eq.1 (hread.trans (further_end (by simp)))).1

/-- A scalar SET symbol with a value. -/
def scalarSymbol (type : SetType) (v : SetValue) : Binding :=
  .own { type, isScalar := true, isGlobal := false, scalar := v }

theorem evaluate_negated_product :
    let x := ((default : Context).bind "N" (scalarSymbol .arithmetic (.arithmetic 7))).bind "C"
      (scalarSymbol .character (.character ['A']))
    let product := Tree.binary .times (.binary .plus (.symbol ['N']) (.literal 2)) (.signed .minus (.literal 3))
    let t := Tree.binary .or (.not (.binary (.relation .lt) product (.literal 0)))
      (.binary .and (.binary (.relation .eq) (.symbol ['C']) (.symbol ['C'])) (.literal 1))
    t.Admissible x ∧ evaluate x "NOT (&N+2)*-3 LT 0 OR &C EQ &C AND 1".toList = .boolean true := by
  intro x product t
  have hn : IsCapitalName ['N'] := by simp [IsCapitalName]
  have hc : IsCapitalName ['C'] := by simp [IsCapitalName]
  have hfits : ∀ n : Nat, n ≤ 3 → n < 2147483648 := by omega
  have ht : t.Admissible x :=
    ⟨⟨⟨⟨⟨hn, _, rfl, rfl⟩, hfits 2 (by decide)⟩, hfits 3 (by decide)⟩, hfits 0 (by decide)⟩,
      ⟨⟨hc, _, rfl, rfl⟩, hc, _, rfl, rfl⟩, hfits 1 (by decide)⟩
  have htext : "NOT (&N+2)*-3 LT 0 OR &C EQ &C AND 1".toList = t.text 0 := by decide +kernel
  obtain ⟨hwritten, hvalue⟩ := evaluate_eq_value x t ht
  rw [htext, hvalue _ hwritten]
  exact ⟨ht, by decide +kernel⟩

end AssemblerIndex.Expression
