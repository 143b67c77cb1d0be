import Mathlib.Tactic.Linarith
import Mathlib.Tactic.Ring
import Mathlib.Tactic.NormNum
import Mathlib.Order.Lattice

/-!
    Finite binary64 numbers in sign-magnitude form.

    Every finite double is a whole multiple of `2^-1074`, so a magnitude is a natural number in that
    unit: the rounding of an exact sum is a rounding of naturals to 53 significant bits, and no
    rational arithmetic is needed. A sum that leaves the finite range is `none`. -/

namespace Binary64

/-- Round to 53 significant bits, ties to even. -/
def roundMag (n : ℕ) : ℕ :=
  let unit := 2 ^ (n.log2 - 52)
  if 2 * (n % unit) < unit ∨ (2 * (n % unit) = unit ∧ n / unit % 2 = 0) then n / unit * unit
  else (n / unit + 1) * unit

/-- Half the unit of the largest doubles is `2^2044`. -/
def halfExponent : ℕ := 2044

/-- The first magnitude that is infinite: `2^1024`. -/
def infMag : ℕ := 2 ^ (53 + (halfExponent + 1))

/-! ### Rounding -/

theorem roundMag_small {n : ℕ} (h : n < 2 ^ 53) : roundMag n = n := by
  have hlog : n.log2 - 52 = 0 := by
    rcases Nat.eq_zero_or_pos n with rfl | hn
    · rfl
    · have := (Nat.log2_lt hn.ne').mpr h
      omega
  simp [roundMag, hlog, Nat.mod_one]

theorem lt_two_pow_log2 {n : ℕ} : n < 2 ^ 53 * 2 ^ (n.log2 - 52) := by
  rw [← Nat.pow_add]
  exact lt_of_lt_of_le Nat.lt_log2_self (Nat.pow_le_pow_right (by decide) (by omega))

/-- A rounded magnitude is one of the two neighbours of `n` in its unit. -/
theorem roundMag_cases (n : ℕ) : ∃ m, m ≤ 2 ^ 53 ∧ roundMag n = m * 2 ^ (n.log2 - 52) ∧
    (m = n / 2 ^ (n.log2 - 52) ∨
      (m = n / 2 ^ (n.log2 - 52) + 1 ∧ 2 ^ (n.log2 - 52) ≤ 2 * (n % 2 ^ (n.log2 - 52)))) := by
  have hq : n / 2 ^ (n.log2 - 52) < 2 ^ 53 :=
    (Nat.div_lt_iff_lt_mul (Nat.two_pow_pos _)).mpr lt_two_pow_log2
  rw [roundMag]
  split
  · exact ⟨_, hq.le, rfl, Or.inl rfl⟩
  · rename_i h
    exact ⟨_, hq, rfl, Or.inr ⟨rfl, by omega⟩⟩

theorem mul_pow_lt {m k e : ℕ} (hm : m ≤ 2 ^ 53) (hk : k < e) : m * 2 ^ k < 2 ^ (53 + e) := by
  rw [Nat.pow_add]
  exact Nat.lt_of_le_of_lt (Nat.mul_le_mul_right _ hm)
    (Nat.mul_lt_mul_of_pos_left (Nat.pow_lt_pow_right (by decide) hk) (by decide))

theorem last_lt (e : ℕ) : (2 ^ 53 - 1) * 2 ^ e < 2 ^ (53 + e) := by
  rw [Nat.pow_add]
  exact Nat.mul_lt_mul_of_pos_right (by decide) (Nat.two_pow_pos e)

/-- A magnitude of at most 53 bits in some unit is exact. -/
theorem roundMag_exact {m k : ℕ} (hm : m ≤ 2 ^ 53) : roundMag (m * 2 ^ k) = m * 2 ^ k := by
  rcases Nat.eq_zero_or_pos m with rfl | hpos
  · simp [roundMag]
  have hne : m * 2 ^ k ≠ 0 := by positivity
  -- the unit of `m * 2^k` divides `2^k`, or `m` is `2^53` and it is `2^(k+1)`
  have hdvd : 2 ^ ((m * 2 ^ k).log2 - 52) ∣ m * 2 ^ k := by
    rcases hm.lt_or_eq with hlt | rfl
    · have hlog : (m * 2 ^ k).log2 < 53 + k := by
        refine (Nat.log2_lt hne).mpr ?_
        rw [Nat.pow_add]
        exact Nat.mul_lt_mul_of_pos_right hlt (Nat.two_pow_pos k)
      exact (Nat.pow_dvd_pow 2 (by omega)).trans (Nat.dvd_mul_left _ _)
    · rw [← Nat.pow_add, Nat.log2_two_pow]
      exact Nat.pow_dvd_pow 2 (by omega)
  simp only [roundMag, Nat.mod_eq_zero_of_dvd hdvd]
  rw [if_pos (Or.inl (by positivity)), Nat.div_mul_cancel hdvd]

theorem roundMag_idem (n : ℕ) : roundMag (roundMag n) = roundMag n := by
  obtain ⟨m, hm, he, -⟩ := roundMag_cases n
  rw [he, roundMag_exact hm]

/-- A rounded magnitude below `2^(53+e)` is at most the last one before it. -/
theorem le_last {n e : ℕ} (hr : roundMag n = n) (hn : n < 2 ^ (53 + e)) :
    n ≤ (2 ^ 53 - 1) * 2 ^ e := by
  rw [Nat.pow_add] at hn
  rcases Nat.lt_or_ge n (2 ^ 52 * 2 ^ e) with hlt | hge
  · exact hlt.le.trans (Nat.mul_le_mul_right _ (by decide))
  · have hne : n ≠ 0 := by
      have : 0 < 2 ^ 52 * 2 ^ e := by positivity
      omega
    have hlog : n.log2 - 52 = e := by
      rw [← Nat.pow_add] at hn hge
      have h1 := (Nat.log2_lt hne).mpr hn
      have h2 := (Nat.le_log2 hne).mpr hge
      omega
    obtain ⟨m, -, he, -⟩ := roundMag_cases n
    rw [hr, hlog] at he
    rw [he] at hn ⊢
    exact Nat.mul_le_mul_right _ (Nat.le_sub_one_of_lt (Nat.lt_of_mul_lt_mul_right hn))

/-- Less than half a unit above the last magnitude of an exponent rounds back to at most it. -/
theorem roundMag_le_last {n e : ℕ} (h : n < (2 ^ 53 - 1) * 2 ^ (e + 1) + 2 ^ e) :
    roundMag n ≤ (2 ^ 53 - 1) * 2 ^ (e + 1) := by
  have htop : n < 2 ^ 53 * 2 ^ (e + 1) := by
    rw [Nat.pow_succ] at h ⊢
    have : 0 < 2 ^ e := Nat.two_pow_pos e
    omega
  obtain ⟨m, hm, he, hcase⟩ := roundMag_cases n
  rcases Nat.lt_or_ge n (2 ^ 52 * 2 ^ (e + 1)) with hlt | hge
  · have hlog : n.log2 - 52 ≤ e := by
      rcases Nat.eq_zero_or_pos n with rfl | hn
      · simp
      · rw [← Nat.pow_add] at hlt
        have := (Nat.log2_lt hn.ne').mpr hlt
        omega
    calc roundMag n = m * 2 ^ (n.log2 - 52) := he
      _ ≤ 2 ^ 53 * 2 ^ e := Nat.mul_le_mul hm (Nat.pow_le_pow_right (by decide) hlog)
      _ ≤ (2 ^ 53 - 1) * 2 ^ (e + 1) := by
        rw [Nat.pow_succ]
        omega
  · have hne : n ≠ 0 := by
      have : 0 < 2 ^ 52 * 2 ^ (e + 1) := by positivity
      omega
    have hlog : n.log2 - 52 = e + 1 := by
      rw [← Nat.pow_add] at htop hge
      have h1 := (Nat.log2_lt hne).mpr htop
      have h2 := (Nat.le_log2 hne).mpr hge
      omega
    rw [hlog] at he hcase
    rw [he]
    refine Nat.mul_le_mul_right _ ?_
    -- rounding up from the last multiple would need a remainder of half a unit
    have hsplit := Nat.div_add_mod n (2 ^ (e + 1))
    rcases hcase with rfl | ⟨rfl, hr⟩
    · exact Nat.le_sub_one_of_lt ((Nat.div_lt_iff_lt_mul (Nat.two_pow_pos _)).mpr htop)
    · by_contra hgt
      have hmul : 2 ^ (e + 1) * (2 ^ 53 - 1) ≤ 2 ^ (e + 1) * (n / 2 ^ (e + 1)) :=
        Nat.mul_le_mul_left _ (by omega)
      have hhalf : 2 ^ (e + 1) = 2 * 2 ^ e := by rw [Nat.pow_succ, Nat.mul_comm]
      rw [Nat.mul_comm (2 ^ 53 - 1)] at h
      omega

theorem log2_mono {a b : ℕ} (h : a ≤ b) : a.log2 ≤ b.log2 := by
  rcases Nat.eq_zero_or_pos a with rfl | ha
  · exact Nat.zero_le _
  · exact (Nat.le_log2 (ha.trans_le h).ne').mpr ((Nat.log2_self_le ha.ne').trans h)

theorem unit_mono {a b : ℕ} (h : a ≤ b) : 2 ^ (a.log2 - 52) ∣ 2 ^ (b.log2 - 52) :=
  Nat.pow_dvd_pow 2 (Nat.sub_le_sub_right (log2_mono h) 52)

/-- A rounded magnitude is a multiple of its unit. -/
theorem unit_dvd {n : ℕ} (hr : roundMag n = n) : 2 ^ (n.log2 - 52) ∣ n := by
  obtain ⟨m, -, he, -⟩ := roundMag_cases n
  exact ⟨m, by rw [Nat.mul_comm, ← he, hr]⟩

/-- Rounding does not step over a rounded magnitude below. -/
theorem le_roundMag {a b : ℕ} (hb : roundMag b = b) (hle : b ≤ a) : b ≤ roundMag a := by
  obtain ⟨m, -, he, hm⟩ := roundMag_cases a
  have hfloor : b ≤ a / 2 ^ (a.log2 - 52) * 2 ^ (a.log2 - 52) := by
    rcases Nat.lt_or_ge a (2 ^ 52) with hsmall | hlarge
    · rcases Nat.eq_zero_or_pos a with rfl | hpos
      · exact hle.trans (by simp)
      · have hlog : a.log2 - 52 = 0 := by
          have := (Nat.log2_lt hpos.ne').mpr hsmall
          omega
        simpa [hlog] using hle
    · rcases Nat.lt_or_ge b (2 ^ a.log2) with hlow | hhigh
      · have hlog : 52 ≤ a.log2 := (Nat.le_log2 (by omega)).mpr hlarge
        have hpow : 2 ^ a.log2 = 2 ^ 52 * 2 ^ (a.log2 - 52) := by rw [← Nat.pow_add]; congr 1; omega
        have hquot : 2 ^ 52 ≤ a / 2 ^ (a.log2 - 52) := by
          rw [Nat.le_div_iff_mul_le (Nat.two_pow_pos _), ← hpow]
          exact Nat.log2_self_le (by omega)
        calc b ≤ 2 ^ 52 * 2 ^ (a.log2 - 52) := hpow ▸ hlow.le
          _ ≤ _ := Nat.mul_le_mul_right _ hquot
      · have hne : b ≠ 0 := by have := Nat.two_pow_pos a.log2; omega
        have hlog : b.log2 = a.log2 :=
          Nat.le_antisymm (log2_mono hle) ((Nat.le_log2 hne).mpr hhigh)
        obtain ⟨c, hc⟩ := hlog ▸ unit_dvd hb
        rw [hc, Nat.mul_comm]
        exact Nat.mul_le_mul_right _ ((Nat.le_div_iff_mul_le (Nat.two_pow_pos _)).mpr
          (by rwa [Nat.mul_comm, ← hc]))
  refine hfloor.trans (he ▸ Nat.mul_le_mul_right _ ?_)
  rcases hm with rfl | ⟨rfl, -⟩
  · exact le_rfl
  · exact Nat.le_succ _

/-- Rounding does not step over a rounded magnitude above. -/
theorem roundMag_le {a b : ℕ} (hb : roundMag b = b) (hle : a ≤ b) : roundMag a ≤ b := by
  obtain ⟨m, -, he, hm⟩ := roundMag_cases a
  have hsplit := Nat.div_add_mod a (2 ^ (a.log2 - 52))
  rcases hm with rfl | ⟨rfl, hup⟩
  · rw [he]
    exact (Nat.div_mul_le_self _ _).trans hle
  · obtain ⟨c, hc⟩ := (unit_mono hle).trans (unit_dvd hb)
    rw [he, hc, Nat.mul_comm]
    refine Nat.mul_le_mul_left _ (Nat.succ_le_of_lt ?_)
    -- a remainder is left over, so the multiple `b` is beyond the quotient
    have hpos := Nat.two_pow_pos (a.log2 - 52)
    refine Nat.lt_of_mul_lt_mul_left (a := 2 ^ (a.log2 - 52)) ?_
    omega

theorem dvd_roundMag {n k : ℕ} (h : 2 ^ k ∣ n) : 2 ^ k ∣ roundMag n := by
  obtain ⟨m, -, he, hm⟩ := roundMag_cases n
  rcases Nat.le_total k (n.log2 - 52) with hk | hk
  · exact he ▸ (Nat.pow_dvd_pow 2 hk).trans (Nat.dvd_mul_left _ _)
  · have hzero := Nat.mod_eq_zero_of_dvd ((Nat.pow_dvd_pow 2 hk).trans h)
    rcases hm with rfl | ⟨rfl, hup⟩
    · rwa [he, Nat.div_mul_cancel (Nat.dvd_of_mod_eq_zero hzero)]
    · rw [hzero] at hup
      exact absurd hup (Nat.not_le.mpr (Nat.two_pow_pos _))

/-- A multiple of a bound's unit that rounds to at most the bound is at most the bound. -/
theorem le_of_roundMag_le {x m k : ℕ} (hm : m < 2 ^ 53) (hx : 2 ^ k ∣ x)
    (h : roundMag x ≤ m * 2 ^ k) : x ≤ m * 2 ^ k := by
  obtain ⟨c, rfl⟩ := hx
  by_contra hgt
  rw [Nat.mul_comm (2 ^ k)] at hgt h
  have hc : m + 1 ≤ c := Nat.lt_of_mul_lt_mul_right (Nat.not_le.mp hgt)
  have hround := le_roundMag (roundMag_exact hm) (Nat.mul_le_mul_right (2 ^ k) hc)
  have hlt : m * 2 ^ k < (m + 1) * 2 ^ k :=
    Nat.mul_lt_mul_of_pos_right (Nat.lt_succ_self m) (Nat.two_pow_pos k)
  exact absurd (hround.trans h) (Nat.not_le.mpr hlt)

/-- Rounding keeps the order. -/
theorem roundMag_mono {a b : ℕ} (h : a ≤ b) : roundMag a ≤ roundMag b := by
  rcases (log2_mono h).lt_or_eq with hlt | heq
  · -- a power of two lies between them, and it is exact
    have hb : b ≠ 0 := by
      rintro rfl
      simp at hlt
    have hpow : roundMag (1 * 2 ^ b.log2) = 1 * 2 ^ b.log2 := roundMag_exact (by decide)
    rw [one_mul] at hpow
    have ha : a ≤ 2 ^ b.log2 := Nat.lt_log2_self.le.trans (Nat.pow_le_pow_right (by decide) hlt)
    exact (roundMag_le hpow ha).trans (le_roundMag hpow (Nat.log2_self_le hb))
  · -- they have one unit
    have hu : 0 < 2 ^ (b.log2 - 52) := Nat.two_pow_pos _
    rw [roundMag, roundMag, heq]
    generalize 2 ^ (b.log2 - 52) = u at hu
    have hsplita := Nat.div_add_mod a u
    have hsplitb := Nat.div_add_mod b u
    have hdiv : a / u ≤ b / u := Nat.div_le_div_right h
    rcases hdiv.lt_or_eq with hquot | hquot
    · have hle : (a / u + 1) * u ≤ b / u * u := Nat.mul_le_mul_right u hquot
      have hle' : a / u * u ≤ (a / u + 1) * u := Nat.mul_le_mul_right u (Nat.le_succ _)
      have hle'' : b / u * u ≤ (b / u + 1) * u := Nat.mul_le_mul_right u (Nat.le_succ _)
      split <;> split <;> omega
    · have hmod : a % u ≤ b % u := by
        rw [hquot] at hsplita
        omega
      rw [hquot]
      have hle'' : b / u * u ≤ (b / u + 1) * u := Nat.mul_le_mul_right u (Nat.le_succ _)
      split
      · split <;> omega
      · split
        · omega
        · exact le_rfl

end Binary64

/-- A finite double. -/
@[ext]
structure Double where
  neg : Bool
  mag : ℕ
  round_mag : Binary64.roundMag mag = mag
  mag_lt : mag < Binary64.infMag

namespace Double
open Binary64

instance : DecidableEq Double := fun a b =>
  decidable_of_iff (a.neg = b.neg ∧ a.mag = b.mag) (by rw [Double.ext_iff])

/-- The value, in units of `2^-1074`. The two zeros have one value. -/
def val (d : Double) : ℤ := if d.neg then -(d.mag : ℤ) else d.mag

instance : LE Double := ⟨fun a b => a.val ≤ b.val⟩
instance : LT Double := ⟨fun a b => a.val < b.val⟩
instance (a b : Double) : Decidable (a ≤ b) := inferInstanceAs (Decidable (a.val ≤ b.val))
instance (a b : Double) : Decidable (a < b) := inferInstanceAs (Decidable (a.val < b.val))

theorem le_def {a b : Double} : a ≤ b ↔ a.val ≤ b.val := Iff.rfl
theorem lt_def {a b : Double} : a < b ↔ a.val < b.val := Iff.rfl
theorem not_le {a b : Double} : ¬a ≤ b ↔ b < a := Int.not_le
theorem not_lt {a b : Double} : ¬a < b ↔ b ≤ a := Int.not_lt
theorem lt_of_le_of_lt {a b c : Double} (h : a ≤ b) (h' : b < c) : a < c := Int.lt_of_le_of_lt h h'
theorem lt_of_lt_of_le {a b c : Double} (h : a < b) (h' : b ≤ c) : a < c := Int.lt_of_lt_of_le h h'

theorem infMag_pos : 0 < infMag := Nat.two_pow_pos _

def zero : Double := ⟨false, 0, rfl, infMag_pos⟩

/-- `-0.0`. -/
def negZero : Double := ⟨true, 0, rfl, infMag_pos⟩

/-- The magnitude of `1.0`. -/
def unitExponent : ℕ := 1074

/-- A whole number that fits the significand. -/
def ofNat (n : ℕ) (h : n ≤ 2 ^ 53) : Double :=
  ⟨false, n * 2 ^ unitExponent, roundMag_exact h, mul_pow_lt h (by decide)⟩

theorem one_fits : 1 ≤ 2 ^ 53 := by decide

theorem hour_fits : 3600 ≤ 2 ^ 53 := by decide

/-- The correctly rounded sum; `none` when it is infinite. -/
def add (a b : Double) : Option Double :=
  let s := a.val + b.val
  if s = 0 then some (if a.neg && b.neg then negZero else zero)
  else if h : roundMag s.natAbs < infMag then
    some ⟨decide (s < 0), roundMag s.natAbs, roundMag_idem _, h⟩
  else none

/-- `-d`. -/
def opposite (d : Double) : Double := ⟨!d.neg, d.mag, d.round_mag, d.mag_lt⟩

/-- The whole part, truncated towards zero. -/
def trunc (d : Double) : ℤ := d.val.tdiv (2 ^ unitExponent)

/-- The correctly rounded double of a whole number; `none` when it is out of range. -/
def ofInt (n : ℤ) : Option Double :=
  if h : roundMag (n.natAbs * 2 ^ unitExponent) < infMag then
    some ⟨decide (n < 0), roundMag (n.natAbs * 2 ^ unitExponent), roundMag_idem _, h⟩
  else none

/-- The double a real-valued database column gives back: it has no negative zero. -/
def stored (d : Double) : Double := if d = negZero then zero else d

/-! ### Lemmas -/

@[simp] theorem stored_zero : stored zero = zero := rfl

theorem stored_eq {d : Double} (h : d ≠ negZero) : stored d = d := if_neg h

theorem zero_ne_negZero : zero ≠ negZero := by decide

theorem stored_ne_negZero (d : Double) : stored d ≠ negZero := by
  rw [stored]
  split
  · exact zero_ne_negZero
  · assumption

theorem ofNat_ne_negZero (n : ℕ) (h : n ≤ 2 ^ 53) : ofNat n h ≠ negZero := by
  rw [Ne, Double.ext_iff]
  simp [ofNat, negZero]

theorem roundMag_pos {n : ℕ} (h : 0 < n) : 0 < roundMag n := by
  rcases Nat.lt_or_ge n (2 ^ 53) with hlt | hge
  · rwa [roundMag_small hlt]
  · obtain ⟨m, -, he, hcase⟩ := roundMag_cases n
    have hq : 0 < n / 2 ^ (n.log2 - 52) :=
      Nat.div_pos ((Nat.pow_le_pow_right (by decide) (Nat.sub_le _ _)).trans
        (Nat.log2_self_le h.ne')) (Nat.two_pow_pos _)
    rw [he]
    exact Nat.mul_pos (by omega) (Nat.two_pow_pos _)

/-- Only `-0.0 + -0.0` is `-0.0`. -/
theorem add_ne_negZero {a b c : Double} (hb : b ≠ negZero) (h : add a b = some c) :
    c ≠ negZero := by
  rintro rfl
  simp only [add] at h
  split at h
  · rename_i hs
    by_cases hn : (a.neg && b.neg) = true
    · simp only [Bool.and_eq_true] at hn
      simp only [val, hn, if_true] at hs
      exact hb (Double.ext hn.2 (show b.mag = 0 by omega))
    · rw [if_neg hn] at h
      exact absurd h (by decide)
  · rename_i hs
    split at h
    · have hmag := congrArg Double.mag (Option.some.inj h)
      exact (roundMag_pos (Int.natAbs_pos.mpr hs)).ne' hmag
    · simp at h

theorem natAbs_val (d : Double) : d.val.natAbs = d.mag := by
  rw [val]
  split <;> simp

theorem add_opposite (a : Double) : a.add a.opposite = some zero := by
  have hsum : a.val + a.opposite.val = 0 := by
    cases hn : a.neg <;> simp [val, opposite, hn]
  have hsign : (a.neg && a.opposite.neg) = false := by
    cases hn : a.neg <;> simp [opposite, hn]
  rw [add, if_pos hsum, if_neg (by rw [hsign]; decide)]

theorem natAbs_tdiv_mul_le (v : ℤ) (k : ℕ) : (v.tdiv (2 ^ k)).natAbs * 2 ^ k ≤ v.natAbs := by
  rw [Int.natAbs_tdiv, Int.natAbs_pow]
  exact Nat.div_mul_le_self _ _

/-- The whole part of a double is in range again. -/
theorem ofInt_trunc_isSome (d : Double) : (ofInt d.trunc).isSome = true := by
  have hle : d.trunc.natAbs * 2 ^ unitExponent ≤ d.mag :=
    natAbs_val d ▸ natAbs_tdiv_mul_le d.val unitExponent
  have hlast := le_last (e := halfExponent + 1) d.round_mag d.mag_lt
  have hround := roundMag_le_last (Nat.lt_of_le_of_lt (hle.trans hlast)
    (Nat.lt_add_of_pos_right (Nat.two_pow_pos halfExponent)))
  have hlt : roundMag (d.trunc.natAbs * 2 ^ unitExponent) < infMag :=
    Nat.lt_of_le_of_lt hround (last_lt _)
  rw [ofInt, dif_pos hlt]
  rfl

/-- A sum with an addend below half the unit of the largest doubles stays finite. -/
theorem add_isSome {a b : Double} (hb : b.mag < 2 ^ halfExponent) : (add a b).isSome = true := by
  have hle : a.mag ≤ (2 ^ 53 - 1) * 2 ^ (halfExponent + 1) := le_last a.round_mag a.mag_lt
  have hlt : roundMag (a.val + b.val).natAbs < infMag := by
    have habs := Int.natAbs_add_le a.val b.val
    rw [natAbs_val, natAbs_val] at habs
    exact Nat.lt_of_le_of_lt
      (roundMag_le_last (Nat.lt_of_le_of_lt habs (Nat.add_lt_add_of_le_of_lt hle hb))) (last_lt _)
  simp only [add]
  split
  · rfl
  · rfl

theorem mag_of_nonneg {d : Double} (hd : 0 ≤ d.val) : (d.mag : ℤ) = d.val := by
  rw [val] at hd ⊢
  split at hd
  · rename_i hneg
    rw [if_pos hneg]
    omega
  · rename_i hneg
    rw [if_neg hneg]

theorem val_opposite (d : Double) : d.opposite.val = -d.val := by
  rw [val, val, opposite]
  cases d.neg with
  | false => simp
  | true => simp

theorem add_val {a b d : Double} (h : a.add b = some d) (hpos : 0 ≤ a.val + b.val) :
    d.val = roundMag (a.val + b.val).natAbs := by
  rw [add] at h
  split at h
  · rename_i hzero
    rw [hzero]
    obtain rfl := Option.some.inj h
    split <;> rfl
  · split at h
    · obtain rfl := Option.some.inj h
      rw [val, decide_eq_false (Int.not_lt.mpr hpos)]
      rfl
    · cases h

/-- A difference that rounds to at most a bound of full precision is at most the bound, when the
    subtrahend is a multiple of the bound's unit. -/
theorem sub_le {a b d : Double} {m k : ℕ} (hm : 2 ^ 52 ≤ m) (hm' : m < 2 ^ 53) (hb : 0 ≤ b.val)
    (hdvd : 2 ^ k ∣ b.mag) (h : a.add b.opposite = some d) (hd : d.val ≤ (m * 2 ^ k : ℕ)) :
    a.val - b.val ≤ (m * 2 ^ k : ℕ) := by
  by_contra hgt
  have hpow := Nat.two_pow_pos k
  have hsum : a.val + b.opposite.val = a.val - b.val := by rw [val_opposite, Int.sub_eq_add_neg]
  have ha : (a.mag : ℤ) = a.val := mag_of_nonneg (by omega)
  have hb' : (b.mag : ℤ) = b.val := mag_of_nonneg hb
  rw [add_val h (by omega), hsum, Int.ofNat_le] at hd
  have hlarge : 2 ^ 52 * 2 ^ k ≤ a.mag := (Nat.mul_le_mul_right _ hm).trans (by omega)
  have hadvd : 2 ^ k ∣ a.mag := by
    refine (Nat.pow_dvd_pow 2 ?_).trans (unit_dvd a.round_mag)
    rw [← Nat.pow_add] at hlarge
    have hne : a.mag ≠ 0 := (Nat.two_pow_pos _).trans_le hlarge |>.ne'
    have hlog := (Nat.le_log2 hne).mpr hlarge
    omega
  have hsub : (a.val - b.val).natAbs = a.mag - b.mag := by omega
  have hle := le_of_roundMag_le hm' (hsub ▸ Nat.dvd_sub hadvd hdvd) hd
  omega

theorem ofInt_spec {n : ℤ} {t : Double} (hn : 0 ≤ n) (ht : ofInt n = some t) :
    t.neg = false ∧ t.mag = roundMag (n.natAbs * 2 ^ unitExponent) := by
  rw [ofInt] at ht
  by_cases h : roundMag (n.natAbs * 2 ^ unitExponent) < infMag
  · rw [dif_pos h, Option.some.injEq] at ht
    rw [← ht]
    simp only [decide_eq_false (Int.not_lt.mpr hn), and_self]
  · rw [dif_neg h] at ht
    cases ht

/-- Truncating a float that is not negative does not increase it. -/
theorem ofInt_trunc_le {d t : Double} (hd : 0 ≤ d.val) (ht : ofInt d.trunc = some t) : t ≤ d := by
  have hle : d.trunc.natAbs * 2 ^ unitExponent ≤ d.mag :=
    natAbs_val d ▸ natAbs_tdiv_mul_le d.val unitExponent
  have htrunc : 0 ≤ d.trunc := Int.tdiv_nonneg hd (by positivity)
  obtain ⟨hneg, hmag⟩ := ofInt_spec htrunc ht
  have hround := roundMag_le d.round_mag hle
  rw [le_def, ← mag_of_nonneg hd, val, hneg, hmag]
  exact Int.ofNat_le.mpr hround

theorem ofNat_val (n : ℕ) (h : n ≤ 2 ^ 53) : (ofNat n h).val = (n * 2 ^ unitExponent : ℕ) := by
  rw [val, ofNat]
  simp only [Bool.false_eq_true, if_false]

/-- A difference from a whole number of seconds that rounds to at most `n` is at most `n`. -/
theorem sub_le_seconds {a b d : Double} {n : ℕ} (hn : 16 ≤ n) (hn' : n < 32) (hb : 0 ≤ b.val)
    (hdvd : 2 ^ unitExponent ∣ b.mag) (h : a.add b.opposite = some d)
    (hd : d.val ≤ (n * 2 ^ unitExponent : ℕ)) : a.val - b.val ≤ (n * 2 ^ unitExponent : ℕ) := by
  obtain ⟨k, hk⟩ : ∃ k, unitExponent = 48 + k := ⟨1026, rfl⟩
  have hsplit : n * 2 ^ unitExponent = n * 2 ^ 48 * 2 ^ k := by rw [hk, Nat.pow_add, Nat.mul_assoc]
  rw [hsplit] at hd ⊢
  refine sub_le ?_ ?_ hb (Nat.dvd_trans ?_ hdvd) h hd
  · omega
  · omega
  · rw [hk]
    exact Nat.pow_dvd_pow 2 (Nat.le_add_left _ _)

/-- A difference that is not negative does not overflow. -/
theorem sub_isSome {a b : Double} (hb : 0 ≤ b.val) (hle : b.val ≤ a.val) :
    (a.add b.opposite).isSome = true := by
  have hsum : a.val + b.opposite.val = a.val - b.val := by rw [val_opposite, Int.sub_eq_add_neg]
  have ha : (a.mag : ℤ) = a.val := mag_of_nonneg (hb.trans hle)
  have hround : roundMag (a.val + b.opposite.val).natAbs ≤ a.mag :=
    roundMag_le a.round_mag (by omega)
  rw [add]
  split
  · rfl
  · rw [dif_pos (Nat.lt_of_le_of_lt hround a.mag_lt)]
    rfl

/-- A sum that is not negative has no negative exact value. -/
theorem exact_nonneg {a b d : Double} (h : a.add b = some d) (hd : 0 ≤ d.val) :
    0 ≤ a.val + b.val := by
  rw [add] at h
  by_contra hneg
  split at h
  · omega
  · split at h
    · obtain rfl := Option.some.inj h
      have hpos := roundMag_pos (n := (a.val + b.val).natAbs) (by omega)
      rw [val, decide_eq_true (by omega : a.val + b.val < 0)] at hd
      dsimp only at hd
      simp only [if_true] at hd
      omega
    · cases h

/-- The sum does not decrease with its first part, as long as it is not negative. -/
theorem add_mono {a a' b d d' : Double} (hle : a ≤ a') (h : a.add b = some d)
    (h' : a'.add b = some d') (hpos : 0 ≤ a.val + b.val) : d ≤ d' := by
  rw [le_def] at hle ⊢
  rw [add_val h hpos, add_val h' (by omega)]
  exact Int.ofNat_le.mpr (roundMag_mono (by omega))

/-- A sum that overflows upwards overflows for every larger first part. -/
theorem add_none_mono {a a' b : Double} (hle : a ≤ a') (hb : 0 ≤ b.val) (h : a.add b = none) :
    a'.add b = none := by
  rw [le_def] at hle
  rw [add] at h
  split at h
  · cases h
  · rename_i hne
    split at h
    · cases h
    · rename_i hover
      have hpos : 0 < a.val + b.val := by
        by_contra hneg
        have hmag : roundMag (a.val + b.val).natAbs ≤ a.mag := by
          refine roundMag_le a.round_mag ?_
          have := natAbs_val a
          omega
        exact hover (Nat.lt_of_le_of_lt hmag a.mag_lt)
      have hmono : roundMag (a.val + b.val).natAbs ≤ roundMag (a'.val + b.val).natAbs :=
        roundMag_mono (by omega)
      rw [add, if_neg (by omega), dif_neg (by omega)]

end Double
