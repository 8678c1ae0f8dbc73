import Mathlib.NumberTheory.LucasPrimality
import Mathlib.Tactic.NormNum.Prime
import Mathlib.Tactic.Ring

/-! Primes by certificates that are checked by computing: powers by squaring, and Lucas's test on a list of numbers of which
each is tested with the prime factors found further down the list. -/

namespace Pratt

/-- `acc * a ^ n` up to multiples of `m`, the exponent read from its lowest bit on, and no more than `fuel` bits of it. -/
def powMod (m : ℕ) : ℕ → ℕ → ℕ → ℕ → ℕ
  | 0, acc, _, _ => acc
  | fuel + 1, acc, a, n => powMod m fuel (if n % 2 = 1 then acc * a % m else acc) (a * a % m) (n / 2)

theorem cast_powMod {m fuel n : ℕ} (acc a : ℕ) (bits : n < 2 ^ fuel) :
    (powMod m fuel acc a n : ZMod m) = (acc : ZMod m) * (a : ZMod m) ^ n := by
  induction fuel generalizing acc a n with
  | zero =>
    have zero : n = 0 := Nat.lt_one_iff.mp bits
    rw [zero, pow_zero, mul_one]
    rfl
  | succ fuel ih =>
    have fewer : n / 2 < 2 ^ fuel := by
      rw [Nat.pow_succ] at bits
      omega
    have square : (a * a % m : ℕ) = ((a : ZMod m) ^ 2) := by
      rw [ZMod.natCast_mod, Nat.cast_mul, sq]
    rw [powMod, ih _ _ fewer, square, ← pow_mul]
    by_cases odd : n % 2 = 1
    · rw [if_pos odd, ZMod.natCast_mod, Nat.cast_mul, mul_assoc, ← pow_succ']
      congr 2
      omega
    · rw [if_neg odd]
      congr 2
      omega

theorem powMod_mod {m fuel n : ℕ} (a b : ℕ) (bits : n < 2 ^ fuel) :
    powMod m fuel 1 a n % m = b % m ↔ (a : ZMod m) ^ n = b := by
  rw [← ZMod.natCast_eq_natCast_iff', cast_powMod 1 a bits, Nat.cast_one, one_mul]

/-- A number, a primitive root of it, and the prime factors of its predecessor, each as often as it divides it. -/
structure Entry where
  p : ℕ
  root : ℕ
  factors : List ℕ

/-- The root is of order `p - 1`, if the factors are all the prime ones. -/
def Entry.passes (fuel : ℕ) (e : Entry) : Bool :=
  decide (e.p - 1 < 2 ^ fuel) && decide (e.factors.prod = e.p - 1) &&
    decide (powMod e.p fuel 1 e.root (e.p - 1) % e.p = 1 % e.p) && e.factors.all fun q => !decide (powMod e.p fuel 1 e.root ((e.p - 1) / q) % e.p = 1 % e.p)

theorem Entry.prime {fuel : ℕ} {e : Entry} (factors : ∀ q ∈ e.factors, q.Prime) (passes : e.passes fuel = true) : e.p.Prime := by
  simp only [Entry.passes, Bool.and_eq_true, decide_eq_true_eq, List.all_eq_true, Bool.not_eq_true',
    decide_eq_false_iff_not] at passes
  obtain ⟨⟨⟨bits, product⟩, one⟩, others⟩ := passes
  apply lucas_primality e.p (e.root : ZMod e.p)
  · rw [(powMod_mod e.root 1 bits).mp one, Nat.cast_one]
  · intro q prime divides power
    rw [← product] at divides
    obtain ⟨r, member, factor⟩ := (Prime.dvd_prod_iff prime.prime).mp divides
    have same : q = r := (Nat.prime_dvd_prime_iff_eq prime (factors r member)).mp factor
    apply others r member
    rw [powMod_mod e.root 1 (lt_of_le_of_lt (Nat.div_le_self _ _) bits), Nat.cast_one, ← same]
    exact power

/-- Every entry passes, with factors that are small primes or found further down. -/
def certifies (fuel : ℕ) (small : List ℕ) : List Entry → Bool
  | [] => true
  | e :: es =>
      e.factors.all (fun q => small.contains q || (es.map Entry.p).contains q) && e.passes fuel && certifies fuel small es

theorem prime_of_certifies {fuel : ℕ} {small : List ℕ} (known : ∀ q ∈ small, q.Prime) {es : List Entry}
    (passes : certifies fuel small es = true) : ∀ e ∈ es, e.p.Prime := by
  induction es with
  | nil => exact fun e member => absurd member List.not_mem_nil
  | cons e es ih =>
    simp only [certifies, Bool.and_eq_true, List.all_eq_true, Bool.or_eq_true, List.contains_iff_mem] at passes
    obtain ⟨⟨factors, here⟩, rest⟩ := passes
    have below := ih rest
    refine List.forall_mem_cons.mpr ⟨?_, below⟩
    apply Entry.prime _ here
    intro q member
    rcases factors q member with tabled | found
    · exact known q tabled
    · obtain ⟨f, inside, same⟩ := List.mem_map.mp found
      rw [← same]
      exact below f inside

end Pratt
