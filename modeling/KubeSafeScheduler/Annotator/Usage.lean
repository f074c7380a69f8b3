import Mathlib.Tactic
import KubeSafeScheduler.Annotator.RequestedText

/-!
`k8s_analytics.py`: the memory requested on a node as the usage annotator sums it up,
next to the sum of the allocation annotator.

* `requestedMemory`: `requested_memory`, which adds the digits of the requests and takes
  them for millions of bytes.
* `Quantity.millions_of_reading`: the digits of an accepted text are those of its number.
* `InMillions`: the texts whose digits do count millions; for them the amount is that of
  the digits (`amount_of_inMillions`), and all others are off by a byte or more
  (`one_le_abs_amount_sub`).
* `nodeMemory`: the memory of a node alone, as the allocation annotator adds it;
  `nodeMemory_holds`: sums of integers come out exactly.
* `requestedMemory_right_iff`: the requests for which the two annotators agree.
-/

namespace KubeSafeScheduler.Annotator

open Py

/-! ### `requested_memory` -/

/-- `filter(str.isdigit, s)`: the digits of the text. -/
def filterDigits (s : String) : List Char := s.toList.filterMap asciiDigit

/-- `int(filter(str.isdigit, q))`; `none` stands for an exception. -/
def Quantity.millions : Quantity → Option ℤ
  | .text s =>
      if filterDigits s = [] then none else some (Nat.ofDigitChars 10 (filterDigits s) 0)
  | _ => none

/-- The round of the loop over the containers. -/
def addMemory (total_req : ℤ) (c : V1Container) : Option ℤ :=
  match c.request memory with
  | none => some total_req
  | some q => q.millions.map (total_req + ·)

/-- `requested_memory`. -/
def requestedMemory (client : CoreV1Api) (node_name : String) : Option ℤ :=
  client.listPodForAllNamespaces.foldlM (fun total_req pod =>
    if pod.runsOn node_name then pod.containers.foldlM addMemory total_req
    else some total_req) 0

section Sum

variable {f : Quantity → ℤ}

/-- The loop over the containers adds up the digits of their requests. -/
lemma addMemory_foldlM {cs : List V1Container}
    (h : ∀ q ∈ cs.filterMap (fun c => c.request memory), q.millions = some (f q)) (total_req : ℤ) :
    cs.foldlM addMemory total_req
      = some (total_req + ((cs.filterMap fun c => c.request memory).map f).sum) := by
  induction cs generalizing total_req with
  | nil => simp
  | cons c cs ih =>
      rw [List.foldlM_cons]
      cases hc : c.request memory with
      | none =>
          have hstep : addMemory total_req c = some total_req := by rw [addMemory, hc]
          rw [List.filterMap_cons_none (f := fun c : V1Container => c.request memory) hc] at h ⊢
          rw [hstep]
          exact ih h total_req
      | some q =>
          rw [List.filterMap_cons_some (f := fun c : V1Container => c.request memory) hc] at h ⊢
          have hstep : addMemory total_req c = some (total_req + f q) := by
            rw [addMemory, hc]
            simp only [h q List.mem_cons_self, Option.map_some]
          rw [hstep, List.map_cons, List.sum_cons, ← add_assoc]
          exact ih (fun q hq => h q (List.mem_cons_of_mem _ hq)) (total_req + f q)

/-- So does the loop over the pods. -/
lemma requestedMemory_foldlM {pods : List V1Pod} {name : String}
    (h : ∀ q ∈ requestsOn pods name memory, q.millions = some (f q)) (total_req : ℤ) :
    pods.foldlM (fun total_req pod =>
        if pod.runsOn name then pod.containers.foldlM addMemory total_req else some total_req)
      total_req = some (total_req + ((requestsOn pods name memory).map f).sum) := by
  induction pods generalizing total_req with
  | nil => simp [requestsOn]
  | cons pod pods ih =>
      rw [← List.singleton_append, requestsOn_append] at h ⊢
      rw [List.singleton_append, List.foldlM_cons]
      by_cases hruns : pod.runsOn name
      · rw [requestsOn_singleton hruns] at h ⊢
        rw [if_pos hruns, addMemory_foldlM fun q hq => h q (List.mem_append_left _ hq),
          List.map_append, List.sum_append, ← add_assoc]
        exact ih (fun q hq => h q (List.mem_append_right _ hq)) _
      · rw [requestsOn_singleton_of_not hruns] at h ⊢
        rw [if_neg hruns]
        exact ih h _

lemma requestedMemory_eq {client : CoreV1Api} {name : String}
    (h : ∀ q ∈ requestsOn client.listPodForAllNamespaces name memory, q.millions = some (f q)) :
    requestedMemory client name
      = some ((requestsOn client.listPodForAllNamespaces name memory).map f).sum := by
  rw [requestedMemory, requestedMemory_foldlM h, zero_add]

end Sum

/-! ### The digits of a request -/

lemma asciiDigit_of_exponents {c : Char} (h : (exponents c).isSome = true) :
    asciiDigit c = none := by
  unfold exponents at h
  split at h <;> first | decide | cases h

/-- The suffix has no digits. -/
lemma filterMap_splitSuffix (cs : List Char) :
    (splitSuffix cs).1.filterMap asciiDigit = cs.filterMap asciiDigit := by
  have hreverse : ∀ l : List Char, cs.reverse = l → cs = l.reverse := fun l h => by
    rw [← h, List.reverse_reverse]
  have hi : asciiDigit 'i' = none := by decide
  unfold splitSuffix
  split
  · rename_i c rest hcs
    split_ifs with hc
    · rw [hreverse _ hcs]
      simp [asciiDigit_of_exponents hc, hi]
    · rfl
  · rename_i c rest _ hcs
    split_ifs with hc
    · rw [hreverse _ hcs]
      simp [asciiDigit_of_exponents hc]
    · rfl
  · rfl

/-- The exponent of a suffix is at most six. -/
lemma exponent_le_of_suffixScale {suffix : List Char} {base : Base} {exponent : ℤ}
    (h : suffixScale suffix = some (base, exponent)) : exponent ≤ 6 := by
  have hle : ∀ c e, exponents c = some e → e ≤ 6 := by
    intro c e hc
    unfold exponents at hc
    split at hc <;> first | (obtain rfl := Option.some.inj hc; decide) | cases hc
  have hend : ∀ base', ((suffix.head?.bind exponents).bind fun e => some (base', e))
      = some (base, exponent) → exponent ≤ 6 := by
    intro base' h
    obtain ⟨e, he, h⟩ := Option.bind_eq_some_iff.mp h
    obtain ⟨c, -, hc⟩ := Option.bind_eq_some_iff.mp he
    obtain ⟨-, rfl⟩ := Prod.mk.inj (Option.some.inj h)
    exact hle c _ hc
  simp only [suffixScale, Option.bind_eq_bind, Option.bind_some, Option.bind_none] at h
  split_ifs at h
  · exact hend _ h
  · exact hend _ h

/-- What is read of a text: its digits are those of the coefficient and those of the
exponent, which is at most their number. -/
structure TextReading (s : String) (d : Dec) (scale : Option (Base × ℤ))
    (coeffDigits expDigits : List Char) : Prop where
  reading : (Quantity.text s).reading = some (d, scale)
  digits : filterDigits s = coeffDigits ++ expDigits
  nonempty : coeffDigits ≠ []
  coeff : d.coeff = Nat.ofDigitChars 10 coeffDigits 0
  exp_le : d.exp ≤ Nat.ofDigitChars 10 expDigits 0
  exponent_le : ∀ base exponent, scale = some (base, exponent) → exponent ≤ 6

/-- A memory request: it is accepted and below `2 ^ 63`, and what stands in front of a
suffix has no exponent. -/
structure IsRequest (s : String) : Prop where
  bounded : Bounded [.text s]
  oneScale : (splitSuffix s.toList).2.isSome = true →
    ∀ c ∈ (splitSuffix s.toList).1, c.toLower ≠ 'e'

lemma IsRequest.accepted {s : String} (h : IsRequest s) : (Quantity.text s).Accepted :=
  h.bounded.accepted _ (List.mem_singleton.mpr rfl)

lemma IsRequest.textReading {s : String} (h : IsRequest s) :
    ∃ d scale coeffDigits expDigits, TextReading s d scale coeffDigits expDigits
      ∧ (scale.isSome = true → expDigits = []) := by
  obtain ⟨d, scale, hread⟩ : ∃ d scale, (Quantity.text s).reading = some (d, scale) := by
    rcases h.accepted.reading with ⟨d, hread, -⟩ | ⟨d, base, exponent, hread, -⟩
    · exact ⟨d, none, hread⟩
    · exact ⟨d, some (base, exponent), hread⟩
  have hinv := hread
  have hone := h.oneScale
  have hall := filterMap_splitSuffix s.toList
  rcases hsplit : splitSuffix s.toList with ⟨number, suffix⟩
  simp only [Quantity.reading, hsplit] at hinv hone hall
  obtain ⟨d', hnumber, hscale⟩ := Option.bind_eq_some_iff.mp hinv
  obtain ⟨a, ha, hfinite⟩ := Option.bind_eq_some_iff.mp hnumber
  rw [Decimal.eq_fin_of_finite hfinite] at ha
  obtain ⟨coeffDigits, expDigits, hdigits, hne, hcoeff, hexp, he⟩ := Decimal.ofString_spec ha
  rw [hall] at hdigits
  cases suffix with
  | none =>
      obtain ⟨rfl, rfl⟩ := Prod.mk.inj (Option.some.inj hscale)
      exact ⟨d', none, coeffDigits, expDigits,
        ⟨hread, hdigits, hne, hcoeff, hexp, fun _ _ h => by cases h⟩, fun h => by cases h⟩
  | some suffix =>
      obtain ⟨scale', hscale', hpair⟩ := Option.map_eq_some_iff.mp hscale
      obtain ⟨rfl, rfl⟩ := Prod.mk.inj hpair
      refine ⟨d', some scale', coeffDigits, expDigits,
        ⟨hread, hdigits, hne, hcoeff, hexp, fun base exponent heq => ?_⟩, fun _ => ?_⟩
      · rw [Option.some.inj heq] at hscale'
        exact exponent_le_of_suffixScale hscale'
      · by_contra hexpDigits
        obtain ⟨c, hc, hce⟩ := he hexpDigits
        exact hone rfl c hc hce

/-! ### Distances -/

section Distance

variable {c : ℕ} (hc : 1 ≤ c)

include hc in
/-- Another power of ten is far from a million. -/
lemma one_le_abs_power_sub {p : ℤ} (hp : p ≠ 6) :
    1 ≤ |(c : ℚ) * (10 : ℚ) ^ p - c * 1000000| := by
  have hc' : (1 : ℚ) ≤ c := by exact_mod_cast hc
  rcases lt_or_gt_of_ne hp with hlt | hgt
  · have hpow : (10 : ℚ) ^ p ≤ 10 ^ (5 : ℤ) := zpow_le_zpow_right₀ (by norm_num) (by omega)
    norm_num at hpow
    rw [abs_sub_comm]
    exact le_abs.mpr (Or.inl (by nlinarith))
  · have hpow : (10 : ℚ) ^ (7 : ℤ) ≤ 10 ^ p := zpow_le_zpow_right₀ (by norm_num) (by omega)
    norm_num at hpow
    exact le_abs.mpr (Or.inl (by nlinarith))

include hc in
/-- With an exponent, whose digits count among those of the number. -/
lemma one_le_abs_exponent_sub {k e : ℕ} (he : e < 10 ^ k) {p : ℤ} (hp : p ≤ e) :
    1 ≤ |(c : ℚ) * (10 : ℚ) ^ p - ((c * 10 ^ k + e : ℕ) : ℚ) * 1000000| := by
  have hc' : (1 : ℚ) ≤ c := by exact_mod_cast hc
  have he' : (e : ℚ) + 1 ≤ 10 ^ k := by exact_mod_cast he
  have he0 : (0 : ℚ) ≤ e := Nat.cast_nonneg e
  have hk : (1 : ℚ) ≤ 10 ^ k := one_le_pow₀ (by norm_num)
  have hsplit : ∀ j : ℤ, (10 : ℚ) ^ ((k : ℤ) + j) = 10 ^ k * 10 ^ j := fun j => by
    rw [zpow_add₀ (by norm_num), zpow_natCast]
  push_cast
  rcases lt_trichotomy p (k + 6) with hlt | rfl | hgt
  · have hpow : (10 : ℚ) ^ p ≤ 10 ^ k * 10 ^ (5 : ℤ) := by
      rw [← hsplit]
      exact zpow_le_zpow_right₀ (by norm_num) (by omega)
    norm_num at hpow
    have hcp : (c : ℚ) * 10 ^ p ≤ c * (10 ^ k * 100000) := by gcongr
    have hck : (1 : ℚ) ≤ c * 10 ^ k := by nlinarith
    rw [abs_sub_comm]
    exact le_abs.mpr (Or.inl (by linarith))
  · have hpos : (1 : ℚ) ≤ e := by
      have : 1 ≤ e := by omega
      exact_mod_cast this
    rw [hsplit]
    norm_num
    rw [abs_sub_comm]
    exact le_abs.mpr (Or.inl (by linarith))
  · have hpow : (10 : ℚ) ^ k * 10 ^ (7 : ℤ) ≤ 10 ^ p := by
      rw [← hsplit]
      exact zpow_le_zpow_right₀ (by norm_num) (by omega)
    norm_num at hpow
    have hcp : (c : ℚ) * (10 ^ k * 10000000) ≤ c * 10 ^ p := by gcongr
    have hck : (10 : ℚ) ^ k ≤ c * 10 ^ k := by nlinarith
    exact le_abs.mpr (Or.inl (by linarith))

/-- A power of 1024 is not near to a power of ten from a million on. -/
lemma far_from_binary {exponent : ℕ} (h0 : exponent ≠ 0) (h6 : exponent ≤ 6) (f : ℕ) :
    1024 ^ exponent + 10 ^ f ≤ 1000000 * 10 ^ f ∨ 1000000 * 10 ^ f + 10 ^ f ≤ 1024 ^ exponent := by
  have hcut : ∀ n, 10 ^ f ≤ 10 ^ n ∨ 10 ^ (n + 1) ≤ 10 ^ f := fun n => by
    rcases Nat.lt_or_ge n f with hlt | hge
    · exact Or.inr (Nat.pow_le_pow_right (by norm_num) hlt)
    · exact Or.inl (Nat.pow_le_pow_right (by norm_num) hge)
  have hone : 1 ≤ 10 ^ f := Nat.one_le_pow _ _ (by norm_num)
  have hn := hcut (3 * (exponent - 2))
  generalize 10 ^ f = F at *
  interval_cases exponent <;> norm_num at * <;> omega

include hc in
/-- So are the sizes with a suffix of base 1024. -/
lemma one_le_abs_binary_sub {x : ℤ} (hx : x ≤ 0) {exponent : ℤ} (h6 : exponent ≤ 6) :
    1 ≤ |(c : ℚ) * (10 : ℚ) ^ x * (1024 : ℚ) ^ exponent - c * 1000000| := by
  have hc' : (1 : ℚ) ≤ c := by exact_mod_cast hc
  rcases le_or_gt exponent 0 with h0 | h0
  · have hx1 : (10 : ℚ) ^ x ≤ 1 := zpow_le_one_of_nonpos₀ (by norm_num) hx
    have he1 : (1024 : ℚ) ^ exponent ≤ 1 := zpow_le_one_of_nonpos₀ (by norm_num) h0
    have hpos : (0 : ℚ) < 1024 ^ exponent := zpow_pos (by norm_num) _
    have hle : (c : ℚ) * 10 ^ x * 1024 ^ exponent ≤ c * 1 * 1 := by gcongr
    rw [abs_sub_comm]
    exact le_abs.mpr (Or.inl (by linarith))
  · obtain ⟨f, rfl⟩ : ∃ f : ℕ, x = -f := ⟨x.natAbs, by omega⟩
    obtain ⟨e, rfl⟩ := Int.eq_ofNat_of_zero_le h0.le
    have hF : (0 : ℚ) < 10 ^ f := by positivity
    have hsplit : (c : ℚ) * (10 : ℚ) ^ (-(f : ℤ)) * (1024 : ℚ) ^ (e : ℤ) - c * 1000000
        = c * ((1024 : ℚ) ^ e - 1000000 * 10 ^ f) / 10 ^ f := by
      rw [zpow_neg, zpow_natCast, zpow_natCast]
      field_simp
    have hfar : (10 : ℚ) ^ f ≤ |(1024 : ℚ) ^ e - 1000000 * 10 ^ f| := by
      have he0 : e ≠ 0 := by omega
      have he6 : e ≤ 6 := by omega
      rcases far_from_binary he0 he6 f with h | h
      · have h' : ((1024 ^ e + 10 ^ f : ℕ) : ℚ) ≤ (1000000 * 10 ^ f : ℕ) := by exact_mod_cast h
        push_cast at h'
        rw [abs_sub_comm]
        exact le_abs.mpr (Or.inl (by linarith))
      · have h' : ((1000000 * 10 ^ f + 10 ^ f : ℕ) : ℚ) ≤ (1024 ^ e : ℕ) := by exact_mod_cast h
        push_cast at h'
        exact le_abs.mpr (Or.inl (by linarith))
    rw [hsplit, abs_div, abs_mul, abs_of_pos hF, abs_of_pos (by linarith : (0 : ℚ) < c),
      le_div_iff₀ hF, one_mul]
    nlinarith

end Distance

/-! ### Millions -/

/-- The number of the digits of a text. -/
def digitsNumber (s : String) : ℕ := Nat.ofDigitChars 10 (filterDigits s) 0

/-- The digits of a text count millions: they make zero, or the number is not negative, its
suffix is a decimal one, and its last digit is worth a million. -/
def InMillions (s : String) : Prop :=
  digitsNumber s = 0
    ∨ ∃ d exponent, (Quantity.text s).reading = some (d, some (.decimal, exponent))
      ∧ d.neg = false ∧ d.exp + 3 * exponent = 6

lemma ofDigitChars_lt {l : List Char} (h : ∀ c ∈ l, c.isDigit = true) :
    Nat.ofDigitChars 10 l 0 < 10 ^ l.length := by
  induction l with
  | nil => exact Nat.one_pos
  | cons c l ih =>
      obtain ⟨hc, hl⟩ := List.forall_mem_cons.mp h
      have hdigit := (isDigit_iff c).mp hc
      have hzero : '0'.toNat = 48 := rfl
      have hrest := ih hl
      rw [Nat.ofDigitChars_cons, Nat.ofDigitChars_eq_ofDigitChars_zero, List.length_cons, pow_succ,
        hzero]
      have hle : 10 ^ l.length * (10 * 0 + (c.toNat - 48)) ≤ 10 ^ l.length * 9 :=
        Nat.mul_le_mul_left _ (by omega)
      omega

lemma isDigit_of_mem_filterDigits {s : String} {c : Char} (h : c ∈ filterDigits s) :
    c.isDigit = true := by
  obtain ⟨c', -, hc'⟩ := List.mem_filterMap.mp h
  exact (Option.filter_eq_some_iff.mp hc').2

/-- Powers of a thousand as powers of ten. -/
lemma ten_mul_thousand (x exponent : ℤ) :
    (10 : ℚ) ^ x * (1000 : ℚ) ^ exponent = 10 ^ (x + 3 * exponent) := by
  have hthousand : (1000 : ℚ) = 10 ^ (3 : ℤ) := by norm_num
  rw [hthousand, ← zpow_mul, ← zpow_add₀ (by norm_num)]

section Amounts

variable {s : String} {d : Dec} {scale : Option (Base × ℤ)} {coeffDigits expDigits : List Char}

/-- The number of the digits: those of the coefficient in front of those of the exponent. -/
lemma TextReading.digitsNumber_eq (h : TextReading s d scale coeffDigits expDigits) :
    digitsNumber s = d.coeff * 10 ^ expDigits.length + Nat.ofDigitChars 10 expDigits 0 := by
  rw [digitsNumber, h.digits, Nat.ofDigitChars_append, Nat.ofDigitChars_eq_ofDigitChars_zero,
    h.coeff, mul_comm]

lemma TextReading.expNumber_lt (h : TextReading s d scale coeffDigits expDigits) :
    Nat.ofDigitChars 10 expDigits 0 < 10 ^ expDigits.length := by
  refine ofDigitChars_lt fun c hc => isDigit_of_mem_filterDigits (s := s) ?_
  rw [h.digits]
  exact List.mem_append_right _ hc

lemma TextReading.millions (h : TextReading s d scale coeffDigits expDigits) :
    (Quantity.text s).millions = some (digitsNumber s : ℤ) := by
  have hne : filterDigits s ≠ [] := by
    rw [h.digits]
    simp [h.nonempty]
  exact if_neg hne

/-- The amount of a text, as its magnitude with its sign. -/
lemma TextReading.amount_eq (h : TextReading s d scale coeffDigits expDigits) :
    (Quantity.text s).amount = Dec.sign d.neg * (d.coeff * (10 : ℚ) ^ d.exp
      * scale.elim 1 fun p => (p.1.toNat : ℚ) ^ p.2) := by
  rw [Quantity.amount, h.reading]
  cases scale with
  | none =>
      simp only [Option.elim_none, Dec.value]
      ring
  | some p =>
      obtain ⟨base, exponent⟩ := p
      simp only [Option.elim_some, Dec.value]
      ring

/-- With a suffix there are no digits of an exponent. -/
lemma TextReading.digitsNumber_of_suffix {p : Base × ℤ}
    (h : TextReading s d (some p) coeffDigits expDigits) (hexp : expDigits = []) :
    digitsNumber s = d.coeff ∧ d.exp ≤ 0 := by
  have hdigits := h.digitsNumber_eq
  have hle := h.exp_le
  subst hexp
  rw [List.length_nil, pow_zero, mul_one, Nat.ofDigitChars_nil, add_zero] at hdigits
  rw [Nat.ofDigitChars_nil] at hle
  exact ⟨hdigits, hle⟩

/-- The amount is that of the digits if they count millions. -/
lemma amount_of_inMillions (h : IsRequest s) (hm : InMillions s) :
    (Quantity.text s).amount = digitsNumber s * 1000000 := by
  obtain ⟨d, scale, coeffDigits, expDigits, hread, hexp⟩ := h.textReading
  have hdigits := hread.digitsNumber_eq
  rw [hread.amount_eq]
  rcases hm with hzero | ⟨d', exponent, hread', hneg, hplace⟩
  · have hpow : 0 < 10 ^ expDigits.length := by positivity
    have hcoeff : d.coeff = 0 := by
      by_contra hne
      have hpos : 0 < d.coeff * 10 ^ expDigits.length :=
        Nat.mul_pos (Nat.pos_of_ne_zero hne) hpow
      omega
    rw [hzero, hcoeff]
    simp
  · obtain ⟨rfl, rfl⟩ := Prod.mk.inj (Option.some.inj (hread'.symm.trans hread.reading))
    have hpow : (10 : ℚ) ^ d'.exp * (1000 : ℚ) ^ exponent = 1000000 := by
      rw [ten_mul_thousand, hplace]
      norm_num
    rw [(hread.digitsNumber_of_suffix (hexp rfl)).1, hneg, Option.elim_some, Base.toNat,
      Dec.sign, if_neg Bool.false_ne_true, Int.cast_one, one_mul, mul_assoc, Nat.cast_ofNat, hpow]

/-- A positive number with its scale is off by a byte or more, unless the suffix is a decimal
one and makes its last digit a million. -/
lemma TextReading.one_le_abs_sub (h : TextReading s d scale coeffDigits expDigits)
    (hexp : scale.isSome = true → expDigits = []) (hcoeff : 1 ≤ d.coeff)
    (hplace : ∀ exponent, scale = some (.decimal, exponent) → d.exp + 3 * exponent ≠ 6) :
    1 ≤ |d.coeff * (10 : ℚ) ^ d.exp * (scale.elim 1 fun p => (p.1.toNat : ℚ) ^ p.2)
      - digitsNumber s * 1000000| := by
  cases scale with
  | none =>
      rw [Option.elim_none, mul_one, h.digitsNumber_eq]
      exact one_le_abs_exponent_sub hcoeff h.expNumber_lt h.exp_le
  | some p =>
      obtain ⟨base, exponent⟩ := p
      obtain ⟨hcount, hle⟩ := h.digitsNumber_of_suffix (hexp rfl)
      rw [Option.elim_some, hcount]
      cases base with
      | decimal =>
          rw [Base.toNat, mul_assoc, Nat.cast_ofNat, ten_mul_thousand]
          exact one_le_abs_power_sub hcoeff (hplace exponent rfl)
      | binary =>
          rw [Base.toNat, Nat.cast_ofNat]
          exact one_le_abs_binary_sub hcoeff hle (h.exponent_le _ _ rfl)

/-- An amount that is not positive is far from any that the digits stand for. -/
lemma one_le_abs_sub_of_nonpos (hne : digitsNumber s ≠ 0) {x : ℚ} (hx : x ≤ 0) :
    1 ≤ |x - digitsNumber s * 1000000| := by
  have hone : (1 : ℚ) ≤ digitsNumber s := by exact_mod_cast Nat.one_le_iff_ne_zero.mpr hne
  rw [abs_sub_comm]
  exact le_abs.mpr (Or.inl (by linarith))

/-- The amount is off by a byte or more if the digits do not count millions. -/
lemma one_le_abs_amount_sub (h : IsRequest s) (hm : ¬ InMillions s) :
    1 ≤ |(Quantity.text s).amount - digitsNumber s * 1000000| := by
  rw [InMillions, not_or] at hm
  obtain ⟨hne, hplace⟩ := hm
  obtain ⟨d, scale, coeffDigits, expDigits, hread, hexp⟩ := h.textReading
  have hscale : (0 : ℚ) ≤ scale.elim 1 fun p => (p.1.toNat : ℚ) ^ p.2 := by
    cases scale with
    | none => exact zero_le_one
    | some p => exact zpow_nonneg (Nat.cast_nonneg _) _
  have hmagnitude : 0 ≤ d.coeff * (10 : ℚ) ^ d.exp
      * scale.elim 1 fun p => (p.1.toNat : ℚ) ^ p.2 := by positivity
  rw [hread.amount_eq]
  cases hneg : d.neg with
  | true =>
      refine one_le_abs_sub_of_nonpos hne ?_
      rw [Dec.sign, if_pos rfl, Int.cast_neg, Int.cast_one, neg_one_mul]
      linarith
  | false =>
      rw [Dec.sign, if_neg Bool.false_ne_true, Int.cast_one, one_mul]
      obtain hcoeff | hcoeff := Nat.eq_zero_or_pos d.coeff
      · refine one_le_abs_sub_of_nonpos hne ?_
        rw [hcoeff, Nat.cast_zero, zero_mul, zero_mul]
      · refine hread.one_le_abs_sub hexp hcoeff fun exponent hscale h6 => hplace ?_
        rw [hread.reading, hscale]
        exact ⟨d, exponent, rfl, hneg, h6⟩

end Amounts

/-! ### The memory of a node alone -/

/-- One request, as the allocation annotator adds it. -/
def addQuantity (alloc : Number) (q : Quantity) : Except Exn Number := addRequest alloc (some q)

/-- The memory that a pod requests. -/
def podMemory (pod : V1Pod) : Except Exn Number := (pod.requests memory).foldlM addQuantity (.int 0)

/-- The memory that the pods of a node request. -/
def nodeMemory (pods : List V1Pod) (name : String) : Except Exn Number :=
  (pods.filter fun pod => pod.runsOn name).foldlM
    (fun sum pod => (podMemory pod).bind sum.add) (.int 0)

lemma except_bind_eq_ok {α β : Type} {x : Except Exn α} {f : α → Except Exn β} {b : β}
    (h : x.bind f = .ok b) : ∃ a, x = .ok a ∧ f a = .ok b := by
  cases x with
  | error e => cases h
  | ok a => exact ⟨a, rfl, h⟩

lemma forEach_apply {α : Type} {n : ℕ} {f : Fin n → Except Exn α} {g : Fin n → α}
    (h : forEach f = .ok g) (i : Fin n) : f i = .ok (g i) := by
  induction n with
  | zero => exact i.elim0
  | succ n ih =>
      obtain ⟨a, ha, h⟩ := except_bind_eq_ok h
      obtain ⟨rest, hrest, h⟩ := except_bind_eq_ok h
      obtain rfl := Except.ok.inj h
      cases i using Fin.cases with
      | zero => exact ha
      | succ i => exact ih hrest i

/-- The loop over the containers, in the column of the memory. -/
lemma foldlM_addContainer_memory {cs : List V1Container} {alloc r : Row}
    (h : cs.foldlM addContainer alloc = .ok r) :
    (cs.filterMap fun c => c.request memory).foldlM addQuantity (alloc memory)
      = .ok (r memory) := by
  induction cs generalizing alloc with
  | nil =>
      obtain rfl := Except.ok.inj h
      rfl
  | cons c cs ih =>
      rw [List.foldlM_cons] at h
      obtain ⟨alloc', hstep, h⟩ := except_bind_eq_ok h
      have hround : addRequest (alloc memory) (c.request memory) = .ok (alloc' memory) := by
        rw [addContainer] at hstep
        cases hreq : c.requests with
        | none =>
            simp only [hreq] at hstep
            obtain rfl := Except.ok.inj hstep
            rw [V1Container.request, hreq]
            rfl
        | some req =>
            simp only [hreq] at hstep
            exact forEach_apply hstep 1
      cases hc : c.request memory with
      | none =>
          rw [hc] at hround
          rw [List.filterMap_cons_none (f := fun c : V1Container => c.request memory) hc,
            Except.ok.inj hround]
          exact ih h
      | some q =>
          rw [hc] at hround
          rw [List.filterMap_cons_some (f := fun c : V1Container => c.request memory) hc,
            List.foldlM_cons, addQuantity, hround]
          exact ih h

lemma podAllocation_memory {pod : V1Pod} {r : Row} (h : podAllocation pod = .ok r) :
    podMemory pod = .ok (r memory) := by
  obtain ⟨alloc, hfold, h⟩ := except_bind_eq_ok h
  obtain ⟨alloc', hmilli, h⟩ := except_bind_eq_ok h
  obtain ⟨product, -, hmilli⟩ := except_bind_eq_ok hmilli
  obtain ⟨milli, -, hmilli⟩ := except_bind_eq_ok hmilli
  obtain rfl := Except.ok.inj hmilli
  obtain rfl := Except.ok.inj h
  rw [Function.update_of_ne (by decide), Function.update_of_ne (by decide)]
  exact foldlM_addContainer_memory hfold

section Pods

variable {pod : V1Pod} {name : String} {nodeAlloc nodeAlloc' : StringMap Row}

/-- The round of the loop for a pod of the node. -/
lemma addPod_memory_of_runsOn (hruns : pod.runsOn name)
    (h : addPod nodeAlloc pod = .ok nodeAlloc') :
    (podMemory pod).bind (row nodeAlloc name memory).add = .ok (row nodeAlloc' name memory) := by
  simp only [addPod, hruns.1, hruns.2, if_true] at h
  obtain ⟨alloc, halloc, h⟩ := except_bind_eq_ok h
  obtain ⟨sums, hsums, h⟩ := except_bind_eq_ok h
  obtain rfl := Except.ok.inj h
  rw [row_insert_self, podAllocation_memory halloc]
  exact forEach_apply hsums 1

/-- A pod that does not run on the node leaves its sums. -/
lemma row_addPod_of_not (hruns : ¬ pod.runsOn name) (h : addPod nodeAlloc pod = .ok nodeAlloc') :
    row nodeAlloc' name = row nodeAlloc name := by
  rw [addPod] at h
  cases hname : pod.nodeName with
  | none =>
      simp only [hname] at h
      rw [Except.ok.inj h]
  | some name' =>
      simp only [hname] at h
      split_ifs at h with hphase
      · obtain ⟨alloc, -, h⟩ := except_bind_eq_ok h
        obtain ⟨sums, -, h⟩ := except_bind_eq_ok h
        obtain rfl := Except.ok.inj h
        refine row_insert_of_ne _ _ fun heq => hruns ⟨?_, hphase⟩
        rw [hname, heq]
      · rw [Except.ok.inj h]

/-- The loop over the pods, in the column of the memory of one node. -/
lemma foldlM_addPod_memory {pods : List V1Pod} (h : pods.foldlM addPod nodeAlloc = .ok nodeAlloc') :
    (pods.filter fun pod => pod.runsOn name).foldlM
        (fun sum pod => (podMemory pod).bind sum.add) (row nodeAlloc name memory)
      = .ok (row nodeAlloc' name memory) := by
  induction pods generalizing nodeAlloc with
  | nil =>
      obtain rfl := Except.ok.inj h
      rfl
  | cons pod pods ih =>
      rw [List.foldlM_cons] at h
      obtain ⟨m, hstep, h⟩ := except_bind_eq_ok h
      have hrest := ih h
      by_cases hruns : pod.runsOn name
      · rw [List.filter_cons_of_pos (by simpa using hruns), List.foldlM_cons,
          addPod_memory_of_runsOn hruns hstep]
        exact hrest
      · rw [List.filter_cons_of_neg (by simpa using hruns), ← row_addPod_of_not hruns hstep]
        exact hrest

end Pods

lemma nodeMemory_eq {client : CoreV1Api} {nodeAlloc : StringMap Row}
    (h : getNodeAllocation client = .ok nodeAlloc) (name : String) :
    nodeMemory client.listPodForAllNamespaces name = .ok (row nodeAlloc name memory) := by
  have hempty : row ∅ name memory = .int 0 := by
    rw [row, StringMap.get_empty]
    rfl
  rw [nodeMemory, ← hempty]
  exact foldlM_addPod_memory h

/-! ### Sums of integers -/

/-- A number is the integer `n`. -/
def Holds (a : Number) (n : ℤ) : Prop := ∃ d, a.dec = some d ∧ d.value = n

/-- Quantities that are accepted and stand for the integers `f`. -/
def Integral (f : Quantity → ℤ) (qs : List Quantity) : Prop :=
  ∀ q ∈ qs, q.Accepted ∧ q.amount = f q

section Integers

variable {f : Quantity → ℤ}

lemma holds_zero : Holds (.int 0) 0 := ⟨_, rfl, Dec.value_ofInt 0⟩

lemma Holds.add {a b r : Number} {m n : ℤ} (ha : Holds a m) (hb : Holds b n)
    (hlt : |((m + n : ℤ) : ℚ)| < 10 ^ 26) (hadd : a.add b = .ok r) : Holds r (m + n) := by
  obtain ⟨d, hd, hm⟩ := ha
  obtain ⟨e, he, hn⟩ := hb
  exact Number.add_of_int hd he hm hn hlt hadd

lemma abs_sum_le {qs : List Quantity} (h : Integral f qs) :
    |(((qs.map f).sum : ℤ) : ℚ)| ≤ size qs := by
  have htotal : ((qs.map f).sum : ℚ) = total qs := by
    rw [total, Int.cast_list_sum, List.map_map]
    exact congrArg List.sum (List.map_congr_left fun q hq => (h q hq).2.symm)
  rw [htotal]
  exact abs_total_le qs

lemma holds_parseQuantity {q : Quantity} (hq : q.Accepted) {n : ℤ} (hn : q.amount = n)
    (hlt : |(n : ℚ)| < 10 ^ 26) {d : Decimal} (h : parseQuantity q = .ok d) :
    Holds (.decimal d) n := by
  obtain ⟨e, he, hnear⟩ := parseQuantity_nearest hq (by rwa [hn])
  obtain rfl := Except.ok.inj (h.symm.trans he)
  rw [hn] at hnear
  exact ⟨e, rfl, hnear.eq_of_int hlt⟩

/-- The loop over the requests of a pod keeps integers. -/
lemma foldlM_addQuantity_holds {qs : List Quantity} (hqs : Integral f qs) {a r : Number} {m : ℤ}
    (ha : Holds a m) (hbound : |(m : ℚ)| + size qs < 10 ^ 26)
    (h : qs.foldlM addQuantity a = .ok r) : Holds r (m + (qs.map f).sum) := by
  induction qs generalizing a m with
  | nil =>
      obtain rfl := Except.ok.inj h
      rwa [List.map_nil, List.sum_nil, add_zero]
  | cons q qs ih =>
      obtain ⟨⟨haccept, hamount⟩, hrest⟩ := List.forall_mem_cons.mp hqs
      have hsize : size (q :: qs) = |(f q : ℚ)| + size qs := by
        rw [size, List.map_cons, List.sum_cons, hamount]
        rfl
      have htri : |((m + f q : ℤ) : ℚ)| ≤ |(m : ℚ)| + |(f q : ℚ)| := by
        rw [Int.cast_add]
        exact abs_add_le _ _
      have hpos := size_nonneg qs
      rw [hsize] at hbound
      rw [List.foldlM_cons] at h
      obtain ⟨a', hstep, h⟩ := except_bind_eq_ok h
      obtain ⟨d, hparse, hadd⟩ := except_bind_eq_ok hstep
      have hparsed := holds_parseQuantity haccept hamount (by linarith [abs_nonneg (m : ℚ)]) hparse
      have hsum := ha.add hparsed (by linarith) hadd
      rw [List.map_cons, List.sum_cons, ← add_assoc]
      exact ih hrest hsum (by linarith) h

/-- So does the loop over the pods of a node. -/
lemma foldlM_podMemory_holds {pods : List V1Pod}
    (hqs : Integral f (pods.flatMap fun pod => pod.requests memory)) {a r : Number} {m : ℤ}
    (ha : Holds a m)
    (hbound : |(m : ℚ)| + size (pods.flatMap fun pod => pod.requests memory) < 10 ^ 26)
    (h : pods.foldlM (fun sum pod => (podMemory pod).bind sum.add) a = .ok r) :
    Holds r (m + ((pods.flatMap fun pod => pod.requests memory).map f).sum) := by
  induction pods generalizing a m with
  | nil =>
      obtain rfl := Except.ok.inj h
      rwa [List.flatMap_nil, List.map_nil, List.sum_nil, add_zero]
  | cons pod pods ih =>
      rw [List.flatMap_cons] at hqs hbound ⊢
      have hpod : Integral f (pod.requests memory) := fun q hq => hqs q (List.mem_append_left _ hq)
      rw [size_append] at hbound
      rw [List.foldlM_cons] at h
      obtain ⟨a', hstep, h⟩ := except_bind_eq_ok h
      obtain ⟨alloc, halloc, hadd⟩ := except_bind_eq_ok hstep
      have hpos := size_nonneg (pods.flatMap fun pod => pod.requests memory)
      have hsmall : |((0 : ℤ) : ℚ)| + size (pod.requests memory) < 10 ^ 26 := by
        rw [Int.cast_zero, abs_zero]
        linarith [abs_nonneg (m : ℚ)]
      have hholds := foldlM_addQuantity_holds hpod holds_zero hsmall halloc
      rw [zero_add] at hholds
      have htri : |((m + ((pod.requests memory).map f).sum : ℤ) : ℚ)|
          ≤ |(m : ℚ)| + size (pod.requests memory) := by
        calc |((m + ((pod.requests memory).map f).sum : ℤ) : ℚ)|
            = |(m : ℚ) + (((pod.requests memory).map f).sum : ℤ)| := by rw [Int.cast_add]
          _ ≤ |(m : ℚ)| + |((((pod.requests memory).map f).sum : ℤ) : ℚ)| := abs_add_le _ _
          _ ≤ |(m : ℚ)| + size (pod.requests memory) := add_le_add_right (abs_sum_le hpod) _
      rw [List.map_append, List.sum_append, ← add_assoc]
      exact ih (fun q hq => hqs q (List.mem_append_right _ hq))
        (ha.add hholds (by linarith) hadd) (by linarith) h

lemma nodeMemory_holds {pods : List V1Pod} {name : String}
    (hqs : Integral f (requestsOn pods name memory))
    (hbound : size (requestsOn pods name memory) < 10 ^ 26) {r : Number}
    (h : nodeMemory pods name = .ok r) :
    Holds r ((requestsOn pods name memory).map f).sum := by
  have hzero : |((0 : ℤ) : ℚ)| + size (requestsOn pods name memory) < 10 ^ 26 := by
    rwa [Int.cast_zero, abs_zero, zero_add]
  have hsum := foldlM_podMemory_holds hqs holds_zero hzero h
  rwa [zero_add] at hsum

end Integers

/-! ### The two annotators -/

/-- The sums of the two annotators for the memory of a node are the same number of bytes. -/
def MemoryAgrees (client : CoreV1Api) (name : String) : Prop :=
  ∃ total_req nodeAlloc d, requestedMemory client name = some total_req
    ∧ getNodeAllocation client = .ok nodeAlloc ∧ (row nodeAlloc name memory).dec = some d
    ∧ d.value = ((total_req * 1000000 : ℤ) : ℚ)

/-- Requests whose digits count millions are summed up alike. -/
lemma memoryAgrees_of_inMillions {client : CoreV1Api} {name : String}
    (hbounded : ∀ name i, Bounded (requestsOn client.listPodForAllNamespaces name i))
    (h : ∀ q ∈ requestsOn client.listPodForAllNamespaces name memory,
      ∃ s, q = .text s ∧ IsRequest s ∧ InMillions s) : MemoryAgrees client name := by
  obtain ⟨nodeAlloc, halloc, -⟩ := getNodeAllocation_spec hbounded
  have hmillions : ∀ q ∈ requestsOn client.listPodForAllNamespaces name memory,
      q.millions = some ((q.millions).getD 0) := by
    intro q hq
    obtain ⟨s, rfl, hs, -⟩ := h q hq
    obtain ⟨d, scale, coeffDigits, expDigits, hread, -⟩ := hs.textReading
    rw [hread.millions]
    rfl
  have hintegral : Integral (fun q => (q.millions).getD 0 * 1000000)
      (requestsOn client.listPodForAllNamespaces name memory) := by
    intro q hq
    obtain ⟨s, rfl, hs, hm⟩ := h q hq
    obtain ⟨d, scale, coeffDigits, expDigits, hread, -⟩ := hs.textReading
    refine ⟨hs.accepted, ?_⟩
    simp only [amount_of_inMillions hs hm, hread.millions, Option.getD_some]
    push_cast
    rfl
  have hsize : size (requestsOn client.listPodForAllNamespaces name memory) < 10 ^ 26 := by
    have hlt := (hbounded name memory).size_lt
    norm_num at hlt ⊢
    linarith
  obtain ⟨d, hd, hvalue⟩ := nodeMemory_holds hintegral hsize (nodeMemory_eq halloc name)
  refine ⟨_, nodeAlloc, d, requestedMemory_eq hmillions, halloc, hd, ?_⟩
  rw [hvalue, List.sum_map_mul_right]

section OneRequest

variable {s : String} (h : IsRequest s)

include h in
lemma abs_amount_lt : |(Quantity.text s).amount| < 2 ^ 63 := by
  have hlt := h.bounded.size_lt
  rwa [size, List.map_singleton, List.sum_singleton] at hlt

include h in
lemma requestedMemory_onePod : requestedMemory (onePod s) "node1" = some (digitsNumber s : ℤ) := by
  obtain ⟨d, scale, coeffDigits, expDigits, hread, -⟩ := h.textReading
  have hall : ∀ q ∈ requestsOn (onePod s).listPodForAllNamespaces "node1" memory,
      q.millions = some (digitsNumber s : ℤ) := by
    intro q hq
    rw [requestsOn_onePod] at hq
    rw [List.mem_singleton.mp hq, hread.millions]
  rw [requestedMemory_eq hall, requestsOn_onePod, List.map_singleton, List.sum_singleton]

include h in
/-- The memory of a node with one request is its amount, or a number that is as near to it
as any other. -/
lemma nodeMemory_onePod {r : Number}
    (hr : nodeMemory (onePod s).listPodForAllNamespaces "node1" = .ok r) :
    ∃ d, r.dec = some d ∧ d.Nearest (Quantity.text s).amount := by
  have hamount := abs_amount_lt h
  have hsmall : ∀ d : Dec, d.Nearest (Quantity.text s).amount → |d.value| < 10 ^ 26 := by
    intro d hd
    have hsub := abs_sub_abs_le_abs_sub d.value (Quantity.text s).amount
    linarith [hd.abs_sub_lt hamount]
  obtain ⟨d, hparse, hd⟩ := parseQuantity_nearest (h.accepted) (hamount.trans (by norm_num))
  obtain ⟨pod, hpods, hruns⟩ : ∃ pod, (onePod s).listPodForAllNamespaces = [pod]
      ∧ pod.runsOn "node1" := ⟨_, rfl, rfl, rfl⟩
  have hrequests : pod.requests memory = [.text s] := by
    rw [← requestsOn_singleton hruns 1, ← hpods, requestsOn_onePod]
  rw [hpods, nodeMemory, List.filter_cons_of_pos (by simpa using hruns), List.filter_nil,
    List.foldlM_cons] at hr
  obtain ⟨sum, hstep, hr⟩ := except_bind_eq_ok hr
  obtain rfl := Except.ok.inj hr
  obtain ⟨alloc, halloc, hadd⟩ := except_bind_eq_ok hstep
  rw [podMemory, hrequests, List.foldlM_cons, addQuantity, addRequest, hparse] at halloc
  obtain ⟨alloc', halloc', hlast⟩ := except_bind_eq_ok halloc
  obtain rfl := Except.ok.inj hlast
  have hround : (Number.int 0).add (.decimal (.fin d)) = .ok alloc' := halloc'
  obtain ⟨e, he, hnear⟩ := Number.zero_add_nearest (Number.dec_fin d) hd (hsmall d hd) hround
  exact Number.zero_add_nearest he hnear (hsmall e hnear) hadd

end OneRequest

/-- The two annotators agree on every list of pods with requests of a kind exactly when the
digits of each of these requests count millions. -/
theorem requestedMemory_right_iff {S : Set String} (hS : ∀ s ∈ S, IsRequest s) :
    (∀ (client : CoreV1Api) (name : String),
        (∀ name i, Bounded (requestsOn client.listPodForAllNamespaces name i)) →
        (∀ q ∈ requestsOn client.listPodForAllNamespaces name memory, ∃ s ∈ S, q = .text s) →
        MemoryAgrees client name)
      ↔ ∀ s ∈ S, InMillions s := by
  constructor
  · intro h s hs
    by_contra hm
    have hrequest := hS s hs
    obtain ⟨total_req, nodeAlloc, d, hreq, halloc, hd, hvalue⟩ := h (onePod s) "node1"
      (onePod_inRange hrequest.bounded).requests fun q hq => by
        rw [requestsOn_onePod] at hq
        exact ⟨s, hs, List.mem_singleton.mp hq⟩
    obtain rfl := Option.some.inj ((requestedMemory_onePod hrequest).symm.trans hreq)
    obtain ⟨e, he, hnear⟩ := nodeMemory_onePod hrequest (nodeMemory_eq halloc "node1")
    obtain rfl := Option.some.inj (hd.symm.trans he)
    have hfar := one_le_abs_amount_sub hrequest hm
    have hclose := hnear.abs_sub_lt (abs_amount_lt hrequest)
    rw [hvalue, abs_sub_comm] at hclose
    push_cast at hclose
    exact absurd hclose (not_lt.mpr hfar)
  · intro h client name hbounded htexts
    refine memoryAgrees_of_inMillions hbounded fun q hq => ?_
    obtain ⟨s, hs, rfl⟩ := htexts q hq
    exact ⟨s, rfl, hS s hs, h s hs⟩

/-- A text that is accepted as a number, and whose number before a suffix has no exponent. -/
lemma isRequest_of_parse {s : String} {d : Dec} {x : ℚ}
    (hparse : parseQuantity (.text s) = .ok (.fin d)) (hamount : (Quantity.text s).amount = x)
    (hx : |x| < 2 ^ 63) (hone : (splitSuffix s.toList).1.all (fun c => c.toLower != 'e') = true) :
    IsRequest s := by
  refine ⟨⟨fun q hq => ?_, ?_⟩, fun _ c hc => ?_⟩
  · rw [List.mem_singleton.mp hq]
    exact ⟨d, hparse⟩
  · rwa [size, List.map_singleton, List.sum_singleton, hamount]
  · exact bne_iff_ne.mp (List.all_eq_true.mp hone c hc)

/-- The sums agree for a request of 1.500 gigabytes. -/
theorem requestedMemory_right_iff_gigabytes : MemoryAgrees (onePod "1.500G") "node1" := by
  have hread : (Quantity.text "1.500G").reading = some (⟨false, 1500, -3⟩, some (.decimal, 3)) := by
    decide
  have hamount : (Quantity.text "1.500G").amount = 1500000000 := by
    rw [Quantity.amount, hread]
    norm_num [Dec.value, Dec.sign, Base.toNat]
  have hparse : parseQuantity (.text "1.500G") = .ok (.fin ⟨false, 1500000000000, -3⟩) := by
    decide
  have hrequest : IsRequest "1.500G" :=
    isRequest_of_parse hparse hamount (by norm_num) (by decide)
  refine (requestedMemory_right_iff (S := {"1.500G"}) ?_).mpr ?_ (onePod "1.500G") "node1"
    (onePod_inRange hrequest.bounded).requests fun q hq => ?_
  · rintro s rfl
    exact hrequest
  · rintro s rfl
    exact Or.inr ⟨_, _, hread, rfl, rfl⟩
  · rw [requestsOn_onePod] at hq
    exact ⟨_, rfl, List.mem_singleton.mp hq⟩

/-- 200 MiB are 209715200 bytes, but counted as 200 millions. -/
theorem requestedMemory_mebibytes :
    ¬ ∀ (client : CoreV1Api) (name : String),
      (∀ name i, Bounded (requestsOn client.listPodForAllNamespaces name i)) →
      (∀ q ∈ requestsOn client.listPodForAllNamespaces name memory,
        ∃ s, q = .text s ∧ IsRequest s) →
      MemoryAgrees client name := by
  intro h
  have hread : (Quantity.text "200Mi").reading = some (⟨false, 200, 0⟩, some (.binary, 2)) := by
    decide
  have hamount : (Quantity.text "200Mi").amount = 209715200 := by
    rw [Quantity.amount, hread]
    norm_num [Dec.value, Dec.sign, Base.toNat]
  have hparse : parseQuantity (.text "200Mi") = .ok (.fin ⟨false, 209715200, 0⟩) := by
    decide
  have hrequest : IsRequest "200Mi" :=
    isRequest_of_parse hparse hamount (by norm_num) (by decide)
  have hdigits : requestedMemory (onePod "200Mi") "node1" = some 200 := by decide
  have hsum : ((getNodeAllocation (onePod "200Mi")).toOption.bind fun nodeAlloc =>
      (row nodeAlloc "node1" memory).dec) = some ⟨false, 209715200, 0⟩ := by decide
  obtain ⟨total_req, nodeAlloc, d, hreq, halloc, hd, hvalue⟩ := h (onePod "200Mi") "node1"
    (onePod_inRange hrequest.bounded).requests fun q hq => by
      rw [requestsOn_onePod] at hq
      exact ⟨_, List.mem_singleton.mp hq, hrequest⟩
  obtain rfl := Option.some.inj (hdigits.symm.trans hreq)
  rw [halloc, Except.toOption, Option.bind_some, hd] at hsum
  obtain rfl := Option.some.inj hsum
  norm_num [Dec.value, Dec.sign] at hvalue

end KubeSafeScheduler.Annotator
