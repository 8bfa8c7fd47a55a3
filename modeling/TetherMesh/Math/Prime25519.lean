import Mathlib.NumberTheory.LucasPrimality
import Mathlib.Data.Nat.ModEq
import Mathlib.Tactic.NormNum.Prime

/-!
# Large primes, and those of Curve25519

Lucas's test shows a number prime by a witness, the order of which modulo the number is the
number less one. The test needs the prime factors of that. A list of certificates holds the
tests of one large prime and of the large factors it rests on, each after its own, and one
computation runs them all.

## Main definitions

* `powMod` — a power modulo a number, by squaring
* `Certificate`, `Certified` — a test, and a list of tests that rest on each other
* `fieldOrder`, `groupOrder` — the orders of the field and of the group of Curve25519

## Main results

* `Certificate.Passes.prime` — Lucas's test
* `prime_of_certified`
* `prime_fieldOrder`, `prime_groupOrder`
-/

namespace TetherMesh.Math

/-- The power `a ^ n` modulo `p`, by squaring, for an exponent of at most so many bits. -/
def powMod (p a : ℕ) : ℕ → ℕ → ℕ
  | 0, _ => 1
  | bits + 1, n =>
    let root := powMod p a bits (n / 2)
    if n % 2 = 0 then root * root % p else root * root % p * a % p

theorem powMod_modEq (p a : ℕ) {bits n : ℕ} (h : n < 2 ^ bits) :
    powMod p a bits n ≡ a ^ n [MOD p] := by
  induction bits generalizing n with
  | zero =>
    obtain rfl : n = 0 := by omega
    exact Nat.ModEq.refl 1
  | succ bits ih =>
    have hroot := ih (n := n / 2) (by omega)
    have hsquare := (Nat.mod_modEq _ p).trans (hroot.mul hroot)
    rw [← pow_add] at hsquare
    rw [powMod]
    -- the half of the exponent is squared, and an odd one needs a factor more
    by_cases heven : n % 2 = 0
    · have hn : n / 2 + n / 2 = n := by omega
      rw [hn] at hsquare
      rwa [if_pos heven]
    · have hn : n / 2 + n / 2 + 1 = n := by omega
      have hodd := (Nat.mod_modEq _ p).trans (hsquare.mul_right a)
      rw [← pow_succ, hn] at hodd
      rwa [if_neg heven]

/-- A number, the witness of its test, and the prime factors of the number before it. -/
structure Certificate where
  p : ℕ
  witness : ℕ
  factors : List ℕ

namespace Certificate

variable {c : Certificate} {known : List ℕ}

/-- The power of the witness that the test looks at. -/
def power (c : Certificate) (n : ℕ) : ℕ := powMod c.p c.witness (c.p.log2 + 1) n % c.p

/-- The test, given the primes that are known. -/
def Passes (c : Certificate) (known : List ℕ) : Prop :=
  c.factors.prod + 1 = c.p ∧ c.power (c.p - 1) = 1 % c.p ∧
    ∀ q ∈ c.factors, q ∈ known ∧ c.power ((c.p - 1) / q) ≠ 1 % c.p

instance (c : Certificate) (known : List ℕ) : Decidable (c.Passes known) :=
  inferInstanceAs (Decidable (_ ∧ _ ∧ _))

theorem power_eq_iff {n : ℕ} (hn : n ≤ c.p - 1) :
    c.power n = 1 % c.p ↔ (c.witness : ZMod c.p) ^ n = 1 := by
  have hbits : n < 2 ^ (c.p.log2 + 1) := by
    have := Nat.lt_log2_self (n := c.p)
    omega
  have hpower := powMod_modEq c.p c.witness hbits
  have hcast := ZMod.natCast_eq_natCast_iff (c.witness ^ n) 1 c.p
  rw [Nat.cast_pow, Nat.cast_one] at hcast
  rw [hcast]
  exact ⟨hpower.symm.trans, hpower.trans⟩

/-- **Lucas's test.** The order of the witness divides the number before `p`, and none of its
proper divisors. -/
theorem Passes.prime (h : c.Passes known) (hknown : ∀ q ∈ known, q.Prime) : c.p.Prime := by
  obtain ⟨hprod, hone, hne⟩ := h
  refine lucas_primality c.p c.witness ((power_eq_iff (Nat.le_refl _)).mp hone) ?_
  intro q hq hdvd
  -- a prime divisor of the number before `p` is one of the factors
  rw [← Nat.eq_sub_of_add_eq hprod] at hdvd
  obtain ⟨factor, hfactor, hqf⟩ := (Prime.dvd_prod_iff hq.prime).mp hdvd
  obtain ⟨hmem, hpower⟩ := hne factor hfactor
  rw [(Nat.prime_dvd_prime_iff_eq hq (hknown factor hmem)).mp hqf]
  exact (power_eq_iff (Nat.div_le_self _ _)).not.mp hpower

end Certificate

/-- Each certificate rests on the primes known and on those certified before it. -/
def Certified (known : List ℕ) : List Certificate → Prop
  | [] => True
  | c :: certs => c.Passes known ∧ Certified (c.p :: known) certs

instance : (known : List ℕ) → (certs : List Certificate) → Decidable (Certified known certs)
  | _, [] => inferInstanceAs (Decidable True)
  | known, c :: certs =>
    have := instDecidableCertified (c.p :: known) certs
    inferInstanceAs (Decidable (_ ∧ _))

theorem prime_of_certified {known : List ℕ} {certs : List Certificate}
    (hknown : ∀ q ∈ known, q.Prime) (h : Certified known certs) :
    ∀ p ∈ certs.map Certificate.p, p.Prime := by
  induction certs generalizing known with
  | nil => exact List.forall_mem_nil _
  | cons c certs ih =>
    have hprime := h.1.prime hknown
    have hall := List.forall_mem_cons.mpr ⟨hprime, hknown⟩
    exact List.forall_mem_cons.mpr ⟨hprime, ih hall h.2⟩

/-! ## The primes of Curve25519 -/

/-- The order of the field. -/
def fieldOrder : ℕ := 2 ^ 255 - 19

/-- The order of the group. -/
def groupOrder : ℕ := 2 ^ 252 + 27742317777372353535851937790883648493

/-- The small factors. -/
def smallPrimes : List ℕ := [2, 3, 5, 7, 11, 13, 19, 23, 31, 41, 43, 47, 73, 107, 127, 223, 269,
  307, 353, 1361, 2437, 2851, 4153, 5879, 30703, 57467, 65147, 75707, 82163, 132049, 132667, 137849,
  430751, 531581, 569003, 1224481, 1923133, 8574133, 58964693]

/-- The large ones up to the order of the field, and up to the order of the group. -/
def certificates : List Certificate := [
  ⟨2773320623, 5, [2, 2437, 569003]⟩,
  ⟨72106336199, 7, [2, 13, 2773320623]⟩,
  ⟨1919519569386763, 2, [2, 3, 7, 19, 47, 47, 127, 8574133]⟩,
  ⟨31757755568855353, 10, [2, 2, 2, 3, 31, 107, 223, 4153, 430751]⟩,
  ⟨75445702479781427272750846543864801, 7, [2, 2, 2, 2, 2, 3, 3, 5, 5, 75707, 72106336199,
    1919519569386763]⟩,
  ⟨74058212732561358302231226437062788676166966415465897661863160754340907, 2, [2, 3, 353, 57467,
    132049, 1923133, 31757755568855353, 75445702479781427272750846543864801]⟩,
  ⟨fieldOrder, 2, [2, 2, 3, 65147,
    74058212732561358302231226437062788676166966415465897661863160754340907]⟩,
  ⟨1257559732178653, 2, [2, 2, 3, 7, 23, 531581, 1224481]⟩,
  ⟨4434155615661930479, 17, [2, 41, 43, 1257559732178653]⟩,
  ⟨172054593956031949258510691, 2, [2, 5, 1361, 2851, 4434155615661930479]⟩,
  ⟨292386187, 2, [2, 3, 3, 3, 3, 307, 5879]⟩,
  ⟨213441916511, 13, [2, 5, 73, 292386187]⟩,
  ⟨19757330305831588566944191468367130476339, 2, [2, 269, 213441916511,
    172054593956031949258510691]⟩,
  ⟨276602624281642239937218680557139826668747, 2, [2, 7,
    19757330305831588566944191468367130476339]⟩,
  ⟨3044861653679985063343, 5, [2, 3, 11, 30703, 82163, 132667, 137849]⟩,
  ⟨198211423230930754013084525763697, 5, [2, 2, 2, 2, 3, 23, 58964693, 3044861653679985063343]⟩,
  ⟨groupOrder, 2, [2, 2, 3, 11, 198211423230930754013084525763697,
    276602624281642239937218680557139826668747]⟩]

theorem prime_of_mem_smallPrimes : ∀ q ∈ smallPrimes, q.Prime := by
  simp only [smallPrimes, List.forall_mem_cons, List.not_mem_nil, false_imp_iff, implies_true,
    and_true]
  norm_num

theorem certified : Certified smallPrimes certificates := by decide +kernel

theorem prime_of_mem_certificates {p : ℕ} (h : p ∈ certificates.map Certificate.p) : p.Prime :=
  prime_of_certified prime_of_mem_smallPrimes certified p h

theorem prime_fieldOrder : fieldOrder.Prime :=
  prime_of_mem_certificates (by simp [certificates])

theorem prime_groupOrder : groupOrder.Prime :=
  prime_of_mem_certificates (by simp [certificates])

instance : Fact fieldOrder.Prime := ⟨prime_fieldOrder⟩

instance : Fact groupOrder.Prime := ⟨prime_groupOrder⟩

end TetherMesh.Math
