import Mathlib.Tactic
import Mathlib.FieldTheory.Finite.Basic
import KubeSafeScheduler.Utils.Hashmap

/-!
The primality test of `utils/hashmap.c` and the search for a table size.

* `powLoop_eq`: up to 46341, the first number after the root of `2^31`, no
  product leaves the range of `int` and the inner loop computes a power. So the
  test accepts every prime (`isPrimeLoop_of_prime`), and the search stops
  (`searchPrime_le`).
* `fails_two`: above `2^16` the squares of two run into zero.
* `powNat`, `allFail`: the same loop on natural numbers below `2^16`, where a base
  that fails is found by trying them in order.
* `exists_fails`: so every odd number above 46337 has a base on which the test
  rejects it, prime or not; `isPrime_spec`: the test is right about primes, and
  the search ends, only below.
-/

namespace KubeSafeScheduler.Utils

/-! ### Products in range -/

lemma mulMod_of_small {x y : ℤ} {val : ℕ} (hval : 0 < val) (hval' : val ≤ 46341) (hx : 0 ≤ x)
    (hx' : x < val) (hy : 0 ≤ y) (hy' : y < val) : mulMod x y val = x * y % val := by
  have hnonneg : 0 ≤ x * y := mul_nonneg hx hy
  have hle : x * y ≤ 46340 * 46340 := mul_le_mul (by omega) (by omega) hy (by norm_num)
  have hmod : x * y % val < val := Int.emod_lt_of_pos _ (by omega)
  have hmod' : 0 ≤ x * y % val := Int.emod_nonneg _ (by omega)
  have hproduct : toInt32 (x * y) = x * y := toInt32_of_range (by omega) (by omega)
  rw [mulMod, hproduct, Int.emod_eq_of_lt (b := 2 ^ 64) hnonneg (by omega),
    toInt32_of_range (by omega) (by omega)]

/-- The inner loop of the test is exponentiation by squaring while the products
stay in range. -/
lemma powLoop_eq {val fuel : ℕ} (hval : 0 < val) (hval' : val ≤ 46341) {p a : ℤ} {exp : ℕ}
    (hp : 0 ≤ p) (hp' : p < val) (ha : 0 ≤ a) (ha' : a < val) (hexp : exp < 2 ^ fuel) :
    powLoop val fuel p a exp = p * a ^ exp % val := by
  induction fuel generalizing p a exp with
  | zero =>
      have hzero : exp = 0 := by omega
      rw [powLoop, hzero, pow_zero, mul_one, Int.emod_eq_of_lt hp hp']
  | succ fuel ih =>
      have hpos : (0 : ℤ) < val := by omega
      have hsq : mulMod a a val = a * a % val :=
        mulMod_of_small hval hval' ha ha' ha ha'
      have hhalf : exp / 2 < 2 ^ fuel := by
        rw [pow_succ] at hexp
        omega
      have hdouble : ∀ q : ℤ,
          q * (a * a % val) ^ (exp / 2) ≡ q * a ^ (2 * (exp / 2)) [ZMOD val] := by
        intro q
        rw [pow_mul, sq]
        exact ((Int.mod_modEq _ _).pow _).mul_left q
      rw [powLoop]
      by_cases hzero : exp = 0
      · rw [if_pos hzero, hzero, pow_zero, mul_one, Int.emod_eq_of_lt hp hp']
      · rw [if_neg hzero, hsq]
        by_cases hodd : exp % 2 = 1
        · have hstep : mulMod p a val = p * a % val :=
            mulMod_of_small hval hval' hp hp' ha ha'
          have hsplit : exp = 2 * (exp / 2) + 1 := by omega
          rw [if_pos hodd, hstep, ih (Int.emod_nonneg _ hpos.ne') (Int.emod_lt_of_pos _ hpos)
            (Int.emod_nonneg _ hpos.ne') (Int.emod_lt_of_pos _ hpos) hhalf]
          calc p * a % val * (a * a % val) ^ (exp / 2) % val
              = p * a % val * a ^ (2 * (exp / 2)) % val := hdouble _
            _ = p * a * a ^ (2 * (exp / 2)) % val := (Int.mod_modEq _ _).mul_right _
            _ = p * a ^ exp % val := by
                rw [mul_assoc, ← pow_succ', ← hsplit]
        · have hsplit : exp = 2 * (exp / 2) := by omega
          rw [if_neg hodd, ih hp hp' (Int.emod_nonneg _ hpos.ne') (Int.emod_lt_of_pos _ hpos) hhalf]
          calc p * (a * a % val) ^ (exp / 2) % val
              = p * a ^ (2 * (exp / 2)) % val := hdouble p
            _ = p * a ^ exp % val := by rw [← hsplit]

/-- The base of a round is at least two and less than the number less two. -/
lemma base_bounds {val : ℕ} (hval : 7 ≤ val) (r : ℕ) :
    2 ≤ r % (val - 4) + 2 ∧ r % (val - 4) + 2 < val := by
  have := Nat.mod_lt r (show 0 < val - 4 by omega)
  omega

/-- On a prime every round of the test ends in one: Fermat's little theorem. -/
lemma isPrimeLoop_of_prime {val : ℕ} (hprime : val.Prime) (h7 : 7 ≤ val) (hval : val ≤ 46341)
    (rounds : ℕ) (rand : Rand) : (isPrimeLoop val rounds rand).1 = true := by
  induction rounds generalizing rand with
  | zero => rfl
  | succ rounds ih =>
      have hbase := base_bounds h7 (rand 0)
      have hcoprime : IsCoprime ((rand 0 % (val - 4) + 2 : ℕ) : ℤ) val := by
        rw [Nat.isCoprime_iff_coprime]
        exact (Nat.coprime_of_lt_prime (by omega) hbase.2 hprime).symm
      have hpow : powLoop val 31 1 (toInt32 ((rand 0 % (val - 4) + 2 : ℕ) : ℤ)) (val - 1) = 1 := by
        rw [toInt32_of_range (by omega) (by omega),
          powLoop_eq (by omega) hval zero_le_one (by omega) (by omega) (by omega) (by omega),
          one_mul, Int.ModEq.pow_card_sub_one_eq_one hprime hcoprime]
        exact Int.emod_eq_of_lt zero_le_one (by omega)
      rw [isPrimeLoop]
      simp only [hpow, ne_eq, not_true_eq_false, if_false]
      exact ih _

/-- The search stops at the latest at a number that the test always accepts. -/
lemma searchPrime_le {q : ℕ} (hq : ∀ rand, (isPrime q rand).1 = true) (hq' : q < 2 ^ 31)
    {fuel val : ℕ} (hle : val ≤ q) (heven : (q - val) % 2 = 0) (hfuel : (q - val) / 2 < fuel)
    (rand : Rand) : ∃ p rand', searchPrime fuel val rand = some (p, rand') ∧ p ≤ q := by
  induction fuel generalizing val rand with
  | zero => omega
  | succ fuel ih =>
      rw [searchPrime, if_pos (by omega)]
      by_cases hfound : (isPrime val rand).1 = true
      · exact ⟨val, (isPrime val rand).2, by simp [hfound], hle⟩
      · have hne : val ≠ q := fun h => hfound (h ▸ hq rand)
        have hlt : val + 2 ≤ q := by omega
        obtain ⟨p, rand', hsearch, hp⟩ :=
          ih hlt (by omega) (by omega) (isPrime val rand).2
        exact ⟨p, rand', by simp [hfound, hsearch], hp⟩

/-! ### Products out of range -/

/-- A base on which the test rejects the number. -/
def Fails (val a : ℕ) : Prop := 2 ≤ a ∧ a + 3 ≤ val ∧ powLoop val 31 1 a (val - 1) ≠ 1

@[simp] lemma mulMod_zero_left (y : ℤ) (val : ℕ) : mulMod 0 y val = 0 := by
  simp [mulMod, toInt32]

@[simp] lemma mulMod_zero_right (x : ℤ) (val : ℕ) : mulMod x 0 val = 0 := by
  simp [mulMod, toInt32]

lemma powLoop_zero_left (val fuel : ℕ) (a : ℤ) (exp : ℕ) : powLoop val fuel 0 a exp = 0 := by
  induction fuel generalizing a exp with
  | zero => rfl
  | succ fuel ih =>
      rw [powLoop, mulMod_zero_left, ite_self, ih, ite_self]

/-- A base of zero makes the power zero, at the latest at the highest bit. -/
lemma powLoop_zero_right {val fuel : ℕ} (p : ℤ) {exp : ℕ} (hexp : exp ≠ 0)
    (hlt : exp < 2 ^ fuel) : powLoop val fuel p 0 exp = 0 := by
  induction fuel generalizing p exp with
  | zero => omega
  | succ fuel ih =>
      rw [powLoop, if_neg hexp, mulMod_zero_right, mulMod_zero_right]
      by_cases hodd : exp % 2 = 1
      · rw [if_pos hodd, powLoop_zero_left]
      · rw [if_neg hodd]
        rw [pow_succ] at hlt
        exact ih p (by omega) (by omega)

/-- While bits of the exponent are left, the base is squared. -/
lemma exists_powLoop (val fuel k : ℕ) (p a : ℤ) {exp : ℕ} (hexp : exp / 2 ^ k ≠ 0) :
    ∃ p', powLoop val (fuel + k) p a exp
      = powLoop val fuel p' ((fun a => mulMod a a val)^[k] a) (exp / 2 ^ k) := by
  induction k generalizing p a exp with
  | zero => exact ⟨p, by simp⟩
  | succ k ih =>
      have hsplit : exp / 2 ^ (k + 1) = exp / 2 / 2 ^ k := by
        rw [pow_succ', Nat.div_div_eq_div_mul]
      rw [hsplit] at hexp ⊢
      have hexp0 : exp ≠ 0 := by
        rintro rfl
        simp at hexp
      rw [← Nat.add_assoc, powLoop, if_neg hexp0, Function.iterate_succ_apply]
      exact ih _ _ hexp

lemma mulMod_self_of_small {val : ℕ} {x : ℤ} (hx : 0 ≤ x) (hlt : x * x < 2 ^ 31)
    (hmod : x * x < val) : mulMod x x val = x * x := by
  have hnonneg : 0 ≤ x * x := mul_nonneg hx hx
  have hproduct : toInt32 (x * x) = x * x := toInt32_of_range (by omega) hlt
  rw [mulMod, hproduct, Int.emod_eq_of_lt (b := 2 ^ 64) hnonneg (by omega),
    Int.emod_eq_of_lt hnonneg hmod, hproduct]

lemma mulMod_self_wrap (val : ℕ) : mulMod 65536 65536 val = 0 := by
  norm_num [mulMod, toInt32, Int.bmod]

/-- Above `2^16` the fifth square of two is a multiple of `2^32`. -/
lemma iterate_mulMod_two {val : ℕ} (hval : 65536 < val) :
    (fun a => mulMod a a val)^[5] 2 = 0 := by
  have h2 : mulMod 2 2 val = 4 := mulMod_self_of_small (by norm_num) (by norm_num) (by omega)
  have h4 : mulMod 4 4 val = 16 := mulMod_self_of_small (by norm_num) (by norm_num) (by omega)
  have h16 : mulMod 16 16 val = 256 := mulMod_self_of_small (by norm_num) (by norm_num) (by omega)
  have h256 : mulMod 256 256 val = 65536 :=
    mulMod_self_of_small (by norm_num) (by norm_num) (by omega)
  have hfive : ∀ f : ℤ → ℤ, f^[5] 2 = f (f (f (f (f 2)))) := fun _ => rfl
  rw [hfive, h2, h4, h16, h256, mulMod_self_wrap]

lemma fails_two {val : ℕ} (hval : 65536 < val) (hval' : val < 2 ^ 31) : Fails val 2 := by
  have hlong : (val - 1) / 2 ^ 5 ≠ 0 := by omega
  obtain ⟨p, hp⟩ := exists_powLoop val 26 5 1 2 hlong
  rw [iterate_mulMod_two hval, powLoop_zero_right p (by omega) (by omega)] at hp
  have hloop : powLoop val 31 1 ((2 : ℕ) : ℤ) (val - 1) = 0 := hp
  refine ⟨le_refl 2, by omega, ?_⟩
  rw [hloop]
  exact zero_ne_one

/-! ### Between the two bounds -/

/-- `mulMod` of numbers below `2^16`: a product from `2^31` on is negative, and
`2^64` larger as an `unsigned long`. -/
def mulNat (val x y : ℕ) : ℕ :=
  Nat.mod (Nat.add (Nat.mul x y)
    (Nat.mul 18446744069414584320 (Nat.div (Nat.mul x y) 2147483648))) val

/-- `powLoop` with `mulNat`. -/
def powNat (val fuel : ℕ) : ℕ → ℕ → ℕ → ℕ :=
  Nat.rec (fun p _ _ => p) (fun _ next p a exp =>
    next (cond (Nat.beq (Nat.mod exp 2) 1) (mulNat val p a) p) (mulNat val a a)
      (Nat.div exp 2)) fuel

/-- Whether one of `count` bases from `a` on fails. -/
def failsFrom (val count : ℕ) : ℕ → Bool :=
  Nat.rec (fun _ => false) (fun _ next a =>
    cond (Nat.beq (powNat val 16 1 a (Nat.pred val)) 1) (next (Nat.succ a)) true) count

/-- Whether each of `count` odd numbers from `val` on has a base that fails. -/
def allFail (count : ℕ) : ℕ → Bool :=
  Nat.rec (fun _ => true) (fun _ next val =>
    cond (failsFrom val 640 2) (next (Nat.add val 2)) false) count

lemma mulMod_natCast {val x y : ℕ} (hval : val < 2 ^ 16) (hx : x < val) (hy : y < val) :
    mulMod x y val = mulNat val x y := by
  have hlt : x * y < 2 ^ 32 := by
    calc x * y < 2 ^ 16 * 2 ^ 16 := Nat.mul_lt_mul'' (by omega) (by omega)
      _ = 2 ^ 32 := by norm_num
  have hmod : ∀ z : ℕ, toInt32 (((z % val : ℕ) : ℤ)) = ((z % val : ℕ) : ℤ) := by
    intro z
    have := Nat.mod_lt z (show 0 < val by omega)
    exact toInt32_of_range (by omega) (by omega)
  have hproduct : toInt32 ((x : ℤ) * y) % 2 ^ 64
      = ((x * y + 18446744069414584320 * (x * y / 2147483648) : ℕ) : ℤ) := by
    rw [toInt32, Int.bmod_def, ← Nat.cast_mul]
    push_cast
    split_ifs <;> omega
  rw [mulMod, hproduct, ← Int.natCast_mod, hmod]
  rfl

lemma mulNat_lt {val : ℕ} (hval : 0 < val) (x y : ℕ) : mulNat val x y < val := Nat.mod_lt _ hval

lemma powNat_succ (val bits p a exp : ℕ) :
    powNat val (bits + 1) p a exp
      = powNat val bits (if exp % 2 = 1 then mulNat val p a else p) (mulNat val a a) (exp / 2) := by
  have hrec : powNat val (bits + 1) p a exp
      = powNat val bits (cond (Nat.beq (exp % 2) 1) (mulNat val p a) p) (mulNat val a a)
        (exp / 2) := rfl
  rw [hrec]
  by_cases hodd : exp % 2 = 1
  · rw [if_pos hodd, hodd]
    rfl
  · rw [if_neg hodd, Nat.mod_two_ne_one.mp hodd]
    rfl

lemma powNat_zero_exp (val bits p a : ℕ) : powNat val bits p a 0 = p := by
  induction bits generalizing a with
  | zero => rfl
  | succ bits ih => rw [powNat_succ, Nat.zero_mod, if_neg Nat.zero_ne_one, Nat.zero_div, ih]

lemma powLoop_natCast {val fuel bits : ℕ} (hval : val < 2 ^ 16) (hbits : bits ≤ fuel) {p a exp : ℕ}
    (hp : p < val) (ha : a < val) (hexp : exp < 2 ^ bits) :
    powLoop val fuel p a exp = powNat val bits p a exp := by
  induction bits generalizing fuel p a exp with
  | zero =>
      have hzero : exp = 0 := by omega
      subst hzero
      cases fuel <;> rfl
  | succ bits ih =>
      obtain ⟨fuel, rfl⟩ := Nat.exists_eq_add_of_le' (show 1 ≤ fuel by omega)
      have hpos : 0 < val := by omega
      rw [powLoop]
      by_cases hzero : exp = 0
      · rw [if_pos hzero, hzero, powNat_zero_exp]
      · rw [pow_succ] at hexp
        have hnext : ∀ {q : ℕ}, q < val → powLoop val fuel q (mulNat val a a) (exp / 2)
            = powNat val bits q (mulNat val a a) (exp / 2) :=
          fun hq => ih (by omega) hq (mulNat_lt hpos a a) (by omega)
        rw [if_neg hzero, mulMod_natCast hval ha ha, powNat_succ]
        by_cases hodd : exp % 2 = 1
        · rw [if_pos hodd, if_pos hodd, mulMod_natCast hval hp ha, hnext (mulNat_lt hpos p a)]
        · rw [if_neg hodd, if_neg hodd, hnext hp]

lemma exists_of_failsFrom {val count a : ℕ} (h : failsFrom val count a = true) :
    ∃ b, a ≤ b ∧ b < a + count ∧ powNat val 16 1 b (val - 1) ≠ 1 := by
  induction count generalizing a with
  | zero => cases h
  | succ count ih =>
      have hrec : failsFrom val (count + 1) a
          = cond (Nat.beq (powNat val 16 1 a (val - 1)) 1) (failsFrom val count (a + 1)) true := rfl
      by_cases hone : powNat val 16 1 a (val - 1) = 1
      · rw [hrec, hone] at h
        obtain ⟨b, hab, hb, hne⟩ := ih h
        exact ⟨b, by omega, by omega, hne⟩
      · exact ⟨a, le_refl a, by omega, hone⟩

lemma failsFrom_of_allFail {count val k : ℕ} (h : allFail count val = true) (hk : k < count) :
    failsFrom (val + 2 * k) 640 2 = true := by
  induction count generalizing val k with
  | zero => omega
  | succ count ih =>
      have hrec : allFail (count + 1) val
          = cond (failsFrom val 640 2) (allFail count (val + 2)) false := rfl
      rw [hrec, Bool.cond_false_right, Bool.and_eq_true] at h
      cases k with
      | zero => exact h.1
      | succ k =>
          have hval : val + 2 * (k + 1) = val + 2 + 2 * k := by omega
          rw [hval]
          exact ih h.2 (by omega)

/-- The bases of the odd numbers from 46339 to 65535: all are below 642. -/
lemma allFail_46339 : allFail 9599 46339 = true := by decide +kernel

/-- Every odd number from 46339 on has a base that fails. -/
lemma exists_fails {val : ℕ} (hval : 46337 < val) (hval' : val < 2 ^ 31) (hodd : val % 2 = 1) :
    ∃ a, Fails val a := by
  by_cases hbig : 65536 < val
  · exact ⟨2, fails_two hbig hval'⟩
  · have hk : val = 46339 + 2 * ((val - 46339) / 2) := by omega
    have hfails : failsFrom val 640 2 = true := by
      rw [hk]
      exact failsFrom_of_allFail allFail_46339 (by omega)
    obtain ⟨a, ha, ha', hne⟩ := exists_of_failsFrom hfails
    refine ⟨a, ha, by omega, fun hone => hne ?_⟩
    have hloop : powLoop val 31 (1 : ℕ) a (val - 1) = powNat val 16 1 a (val - 1) :=
      powLoop_natCast (by omega) (by omega) (by omega) (by omega) (by omega)
    rw [Nat.cast_one, hone] at hloop
    exact_mod_cast hloop.symm

/-! ### The test and the search -/

/-- A base that fails in the first round rejects the number. -/
lemma isPrime_of_fails {val : ℕ} {rand : Rand} (h : Fails val (rand 0 + 2))
    (hval : val < 2 ^ 31) : isPrime val rand = (false, fun k => rand (k + 1)) := by
  obtain ⟨-, hle, hne⟩ := h
  have hbase : rand 0 % (val - 4) = rand 0 := Nat.mod_eq_of_lt (by omega)
  rw [isPrime, isPrimeLoop, hbase]
  simp only [toInt32_of_range (x := ((rand 0 + 2 : ℕ) : ℤ)) (by omega) (by omega)]
  exact if_pos hne

/-- With such bases for all candidates the search has no end. -/
lemma searchPrime_of_fails {fuel val : ℕ} {rand : Rand}
    (h : ∀ k, val + 2 * k < 2 ^ 31 → Fails (val + 2 * k) (rand k + 2)) :
    searchPrime fuel val rand = none := by
  induction fuel generalizing val rand with
  | zero => rfl
  | succ fuel ih =>
      rw [searchPrime]
      split_ifs with hval
      · have hreject : isPrime val rand = (false, fun k => rand (k + 1)) :=
          isPrime_of_fails (h 0 hval) hval
        simp only [hreject, Bool.false_eq_true, if_false]
        refine ih fun k hk => ?_
        have hnext := h (k + 1) (by omega)
        rwa [show val + 2 * (k + 1) = val + 2 + 2 * k by omega] at hnext
      · rfl

lemma exists_searchPrime_none {val : ℕ} (hval : 46337 < val) (hodd : val % 2 = 1) :
    ∃ rand, ∀ fuel, searchPrime fuel val rand = none := by
  have hbase : ∀ k, ∃ r, val + 2 * k < 2 ^ 31 → Fails (val + 2 * k) (r + 2) := by
    intro k
    by_cases hlt : val + 2 * k < 2 ^ 31
    · have hlarge : 46337 < val + 2 * k := by omega
      obtain ⟨a, ha⟩ := exists_fails hlarge hlt (by omega)
      have htwo : a - 2 + 2 = a := Nat.sub_add_cancel ha.1
      exact ⟨a - 2, fun _ => htwo.symm ▸ ha⟩
    · exact ⟨0, fun h => absurd h hlt⟩
  choose rand hrand using hbase
  exact ⟨rand, fun fuel => searchPrime_of_fails hrand⟩

/-- The number that the search starts from. -/
lemma findPrimeGreaterThan_eq {n : ℕ} (hn : n < 2 ^ 31) (rand : Rand) :
    findPrimeGreaterThan n rand
      = searchPrime (2 ^ 30) (if n % 2 = 1 then n + 2 else n + 1) rand := if_pos hn

lemma isPrime_accepts_iff {v : ℕ} (hprime : v.Prime) (h7 : 7 ≤ v) (hv : v < 2 ^ 31) :
    (∀ rand, (isPrime v rand).1 = true) ↔ v ≤ 46341 := by
  constructor
  · intro h
    by_contra hlarge
    obtain ⟨a, ha⟩ := exists_fails (by omega) hv
      (Nat.odd_iff.mp (hprime.odd_of_ne_two (by omega)))
    have htwo : a - 2 + 2 = a := Nat.sub_add_cancel ha.1
    have hreject : isPrime v (fun _ => a - 2) = (false, fun _ => a - 2) :=
      isPrime_of_fails (htwo.symm ▸ ha) hv
    have haccept := h fun _ => a - 2
    rw [hreject] at haccept
    cases haccept
  · intro hle rand
    exact isPrimeLoop_of_prime hprime h7 hle 9 rand

lemma findPrimeGreaterThan_stops_iff {n : ℕ} (h6 : 6 ≤ n) :
    (∀ rand, ∃ p rand', findPrimeGreaterThan n rand = some (p, rand')
        ∧ ∀ q, q.Prime → n < q → p ≤ q) ↔ n < 46337 := by
  constructor
  · intro h
    by_contra hlarge
    by_cases hn : n < 2 ^ 31
    · obtain ⟨rand, hrand⟩ : ∃ rand, ∀ fuel,
          searchPrime fuel (if n % 2 = 1 then n + 2 else n + 1) rand = none :=
        exists_searchPrime_none (by split_ifs <;> omega) (by split_ifs <;> omega)
      obtain ⟨p, rand', hfind, -⟩ := h rand
      rw [findPrimeGreaterThan_eq hn, hrand] at hfind
      cases hfind
    · obtain ⟨p, rand', hfind, -⟩ := h fun _ => 0
      rw [findPrimeGreaterThan, if_neg hn] at hfind
      cases hfind
  · intro hlt rand
    have hprime : Nat.Prime 46337 := by norm_num
    -- the least prime above `n` is one the test is right about
    obtain ⟨q, ⟨hq, hnq⟩, hleast⟩ : ∃ q, (q.Prime ∧ n < q) ∧ ∀ q', q'.Prime → n < q' → q ≤ q' := by
      have hex : ∃ q, q.Prime ∧ n < q := ⟨46337, hprime, hlt⟩
      classical
      exact ⟨Nat.find hex, Nat.find_spec hex, fun q' hq' hn => Nat.find_min' hex ⟨hq', hn⟩⟩
    have hle : q ≤ 46337 := hleast 46337 hprime hlt
    have hqodd : q % 2 = 1 := Nat.odd_iff.mp (hq.odd_of_ne_two (by omega))
    obtain ⟨p, rand', hsearch, hp⟩ : ∃ p rand', searchPrime (2 ^ 30)
        (if n % 2 = 1 then n + 2 else n + 1) rand = some (p, rand') ∧ p ≤ q :=
      searchPrime_le (fun rand => isPrimeLoop_of_prime hq (by omega) (by omega) 9 rand) (by omega)
        (by split_ifs <;> omega) (by split_ifs <;> omega) (by split_ifs <;> omega) rand
    rw [findPrimeGreaterThan_eq (by omega)]
    exact ⟨p, rand', hsearch, fun q' hq' hn => hp.trans (hleast q' hq' hn)⟩

/-- The test accepts a prime whatever the random bases, and the search stops at
the latest at the next prime, exactly as far as the products are in range. -/
theorem isPrime_spec {v n : ℕ} (hprime : v.Prime) (h7 : 7 ≤ v) (hv : v < 2 ^ 31) (h6 : 6 ≤ n) :
    ((∀ rand, (isPrime v rand).1 = true) ↔ v ≤ 46341)
      ∧ ((∀ rand, ∃ p rand', findPrimeGreaterThan n rand = some (p, rand')
          ∧ ∀ q, q.Prime → n < q → p ≤ q) ↔ n < 46337) :=
  ⟨isPrime_accepts_iff hprime h7 hv, findPrimeGreaterThan_stops_iff h6⟩

/-- The first enlargement of a table asks for more than 2042 slots. -/
theorem isPrime_spec_first :
    (∀ rand, (isPrime 46337 rand).1 = true)
      ∧ ∀ rand, ∃ p rand', findPrimeGreaterThan 2042 rand = some (p, rand')
        ∧ ∀ q, q.Prime → 2042 < q → p ≤ q := by
  have hprime : Nat.Prime 46337 := by norm_num
  have hspec := @isPrime_spec 46337 2042 hprime (by norm_num) (by norm_num) (by norm_num)
  exact ⟨hspec.1.mpr (by norm_num), hspec.2.mpr (by norm_num)⟩

/-- A prime that the test rejects when `rand()` gives zero. -/
theorem isPrime_65537 :
    ¬∀ v : ℕ, v.Prime → 7 ≤ v → v < 2 ^ 31 → ∀ rand, (isPrime v rand).1 = true := by
  intro h
  have haccept := h 65537 (by norm_num) (by norm_num) (by norm_num) fun _ => 0
  revert haccept
  decide +kernel

end KubeSafeScheduler.Utils
