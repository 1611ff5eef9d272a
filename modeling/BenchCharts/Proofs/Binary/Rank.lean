import BenchCharts.Binary.Basic
import BenchCharts.Proofs.Binary.Nearest

/-!
# Arithmetic on the line of units

A value that is not a NaN stands at its rank, and what the operations do to finite
values (`StandsAt`) is told by ranks alone: the sum stands at the place nearest to the
sum of the ranks (`rank_add`), and the order of values is the order of ranks.  Places
are counted with a sign, as far as the overflow limit, where the infinities stand, so
`Format.nearest` keeps the order of all fractions (`nearest_mono`) and every place where
a value stands (`nearest_mul_of_rank`), and does not go beyond it (`nearest_le_of_rank`,
`le_nearest_of_rank`).

`exists_isBest_foldl` is about the largest or the smallest of some values, found by
going through them with `maximum` or `minimum`.
-/

namespace BenchCharts

open Binary

@[simp] theorem Binary.natAbs_signed (negative : Bool) (n : Nat) :
    (signed negative n).natAbs = n := by
  cases negative <;> simp [signed]

theorem Binary.signed_true (n : Nat) : signed true n = -(n : Int) := rfl

theorem Binary.signed_false (n : Nat) : signed false n = n := rfl

theorem Binary.signed_mul (s t : Bool) (m n : Nat) :
    signed (s != t) (m * n) = signed s m * signed t n := by
  cases s <;> cases t
  · exact Int.natCast_mul m n
  · show -((m * n : Nat) : Int) = m * -n
    rw [Int.mul_neg, Int.natCast_mul]
  · show -((m * n : Nat) : Int) = -m * n
    rw [Int.neg_mul, Int.natCast_mul]
  · show ((m * n : Nat) : Int) = -m * -n
    rw [Int.neg_mul_neg, Int.natCast_mul]

/-! ## The nearest place -/

namespace Format

variable (f : Format)

/-- The number of units that a number of units is rounded to; what overflows goes to
the limit. -/
def nearestUnits (num den : Nat) : Nat :=
  min (roundRatio f.digits num den) (2 ^ f.limit)

/-- The place nearest to a fraction. -/
def nearest (num : Int) (den : Nat) : Int :=
  signed (decide (num < 0)) (f.nearestUnits num.natAbs den)

theorem four_mul_one : 4 * f.one = 2 ^ (f.scale + 2) := by
  rw [one, Nat.pow_add, Nat.mul_comm]

theorem two_pow_digits_mul_one : 2 ^ f.digits * f.one = 2 ^ (f.digits + f.scale) := by
  rw [one, Nat.pow_add]

variable {f}

theorem nearestUnits_mono {m n den : Nat} (hden : 0 < den) (h : m ≤ n) :
    f.nearestUnits m den ≤ f.nearestUnits n den := by
  have hmono := roundRatio_mono f.digits_pos hden h
  simp only [nearestUnits]
  omega

theorem nearestUnits_le (num den : Nat) : f.nearestUnits num den ≤ 2 ^ f.limit :=
  Nat.min_le_right _ _

/-- The places of finite values and the limit are kept. -/
theorem nearestUnits_mul {n den : Nat} (hden : 0 < den)
    (h : 2 ^ excess f.digits n ∣ n) (hle : n ≤ 2 ^ f.limit) :
    f.nearestUnits (n * den) den = n := by
  rw [nearestUnits, roundRatio_mul hden h]
  exact Nat.min_eq_left hle

theorem nearestUnits_le_two_pow {num e : Nat} (h : num ≤ 2 ^ e) : f.nearestUnits num 1 ≤ 2 ^ e := by
  refine Nat.le_trans (Nat.min_le_left _ _) ?_
  apply roundRatio_le f.digits_pos Nat.one_pos (excess_two_pow_dvd f.digits_pos e)
  rwa [Nat.mul_one]

/-- What has been rounded has few bits. -/
theorem excess_nearestUnits_dvd (num den : Nat) :
    2 ^ excess f.digits (f.nearestUnits num den) ∣ f.nearestUnits num den := by
  rcases Nat.le_total (roundRatio f.digits num den) (2 ^ f.limit) with hle | hle
  · rw [nearestUnits, Nat.min_eq_left hle]
    exact dvd_roundRatio f.digits num den f.digits_pos
  · rw [nearestUnits, Nat.min_eq_right hle]
    exact excess_two_pow_dvd f.digits_pos f.limit

theorem nearestUnits_zero (den : Nat) : f.nearestUnits 0 den = 0 := by
  simp [nearestUnits, roundRatio, roundHalfEven]

theorem nearest_zero (den : Nat) : f.nearest 0 den = 0 := by
  simp [nearest, signed, nearestUnits_zero]

theorem natAbs_nearest (n : Int) (den : Nat) :
    (f.nearest n den).natAbs = f.nearestUnits n.natAbs den :=
  natAbs_signed _ _

theorem nearest_neg (n : Int) (den : Nat) : f.nearest (-n) den = -f.nearest n den := by
  have hzero := f.nearestUnits_zero den
  simp only [nearest, signed, Int.natAbs_neg, decide_eq_true_eq]
  rcases Int.lt_trichotomy n 0 with h | rfl | h
  · rw [if_neg (by omega), if_pos h, Int.neg_neg]
  · simp [hzero]
  · rw [if_pos (by omega), if_neg (by omega)]

theorem nearest_natCast (n den : Nat) : f.nearest n den = f.nearestUnits n den := by
  rw [nearest, signed, if_neg (by simp), Int.natAbs_natCast]

/-- Larger fractions do not go to smaller places. -/
theorem nearest_mono {m n : Int} {den : Nat} (hden : 0 < den) (h : m ≤ n) :
    f.nearest m den ≤ f.nearest n den := by
  have hbelow : n < 0 → f.nearestUnits n.natAbs den ≤ f.nearestUnits m.natAbs den :=
    fun _ => nearestUnits_mono hden (by omega)
  have habove : 0 ≤ m → f.nearestUnits m.natAbs den ≤ f.nearestUnits n.natAbs den :=
    fun _ => nearestUnits_mono hden (by omega)
  simp only [nearest, signed, decide_eq_true_eq]
  split <;> split <;> omega

/-- The places of finite values and the limit are kept. -/
theorem nearest_mul {n : Int} {den : Nat} (hden : 0 < den)
    (h : 2 ^ excess f.digits n.natAbs ∣ n.natAbs) (hle : n.natAbs ≤ 2 ^ f.limit) :
    f.nearest (n * den) den = n := by
  have hmul := nearestUnits_mul hden h hle
  rcases Int.le_total 0 n with hn | hn
  · obtain ⟨k, rfl⟩ := Int.eq_ofNat_of_zero_le hn
    rw [← Int.natCast_mul, nearest_natCast]
    exact congrArg Nat.cast hmul
  · obtain ⟨k, hk⟩ := Int.eq_ofNat_of_zero_le (Int.neg_nonneg_of_nonpos hn)
    have hneg : n = -(k : Int) := by omega
    rw [hneg, Int.natAbs_neg, Int.natAbs_natCast] at hmul
    rw [hneg, Int.neg_mul, nearest_neg, ← Int.natCast_mul, nearest_natCast, hmul]

/-- Up to `2 ^ digits` multiples of a power of two are not rounded. -/
theorem nearest_mul_two_pow {k : Int} {e : Nat} (hk : k.natAbs ≤ 2 ^ f.digits)
    (he : f.digits + e ≤ f.limit) :
    f.nearest (k * (2 ^ e : Nat)) 1 = k * (2 ^ e : Nat) := by
  rcases Nat.eq_zero_or_pos k.natAbs with hzero | hpos
  · rw [Int.natAbs_eq_zero.mp hzero, Int.zero_mul, nearest_zero]
  · have hdvd := excess_mul_pow_le _ _ e f.digits_pos hpos hk
    have hle : k.natAbs * 2 ^ e ≤ 2 ^ f.limit := by
      refine Nat.le_trans (Nat.mul_le_mul_right _ hk) ?_
      rw [← Nat.pow_add]
      exact Nat.pow_le_pow_right (by decide) he
    have hmul := nearest_mul (f := f) (n := k * (2 ^ e : Nat)) Nat.one_pos
    rw [Int.natAbs_mul, Int.natAbs_natCast, Int.natCast_one, Int.mul_one] at hmul
    exact hmul hdvd hle

theorem nearest_natCast_sub_lt_add_iff {m : Nat} (h : f.Fits m) :
    f.nearest (m - f.one) 1 < f.nearest (m + f.one) 1
      ↔ m ≤ 2 ^ f.digits * f.one ∨ ¬4 * f.one ∣ m := by
  rw [two_pow_digits_mul_one, four_mul_one, ← roundRatio_sub_lt_add_iff f.digits_pos h.1]
  show f.nearest (m - f.one) 1 < f.nearest (m + f.one) 1
    ↔ roundRatio f.digits (m - f.one) 1 < roundRatio f.digits (m + f.one) 1
  have habove : f.nearest (m + f.one) 1 = f.nearestUnits (m + f.one) 1 := nearest_natCast _ 1
  have hlimit : roundRatio f.digits (m - f.one) 1 < 2 ^ f.limit := by
    refine Nat.lt_of_le_of_lt (roundRatio_le f.digits_pos Nat.one_pos h.1 ?_) h.2
    omega
  rw [habove]
  rcases Nat.lt_or_ge m f.one with hlt | hge
  · have hpos : 0 < roundRatio f.digits (m + f.one) 1 :=
      Nat.lt_of_lt_of_le f.one_pos
        (le_roundRatio f.digits_pos Nat.one_pos (excess_two_pow_dvd f.digits_pos f.scale)
          (by rw [Nat.mul_one]; exact Nat.le_add_left _ _))
    have hbelow : f.nearest (m - f.one) 1 ≤ 0 := by
      rw [← f.nearest_zero 1]
      apply nearest_mono Nat.one_pos
      omega
    have hzero : roundRatio f.digits (m - f.one) 1 = 0 := by
      rw [Nat.sub_eq_zero_of_le (Nat.le_of_lt hlt)]
      simp [roundRatio, roundHalfEven]
    have hcapacity := Nat.two_pow_pos f.limit
    simp only [nearestUnits]
    omega
  · have hbelow : f.nearest (m - f.one) 1 = f.nearestUnits (m - f.one) 1 := by
      rw [← nearest_natCast]
      congr 1
      omega
    rw [hbelow]
    simp only [nearestUnits]
    omega

/-- Where a finite value stands, one more and one less go to different places unless the
value is beyond `2 ^ digits` and a multiple of four. -/
theorem nearest_sub_lt_add_iff {n : Int} (h : f.Fits n.natAbs) :
    f.nearest (n - f.one) 1 < f.nearest (n + f.one) 1
      ↔ n.natAbs ≤ 2 ^ f.digits * f.one ∨ ¬4 * f.one ∣ n.natAbs := by
  have hmagnitude := nearest_natCast_sub_lt_add_iff h
  rcases Int.natAbs_eq n with hn | hn
  · rwa [← hn] at hmagnitude
  · -- the places of a negative value are those of its magnitude, mirrored
    have hsub : n - f.one = -(n.natAbs + f.one : Int) := by omega
    have hadd : n + f.one = -(n.natAbs - f.one : Int) := by omega
    rw [← hmagnitude, hsub, hadd, nearest_neg, nearest_neg]
    exact Int.neg_lt_neg_iff

/-- Such places do not overflow if the limit is not near. -/
theorem natAbs_nearest_lt_of_keeps {n : Int} (h : f.Fits n.natAbs)
    (hkeeps : n.natAbs ≤ 2 ^ f.digits * f.one ∨ ¬4 * f.one ∣ n.natAbs)
    (hlimit : f.digits + f.scale + 2 < f.limit) (m : Int) (hm : m.natAbs ≤ n.natAbs + f.one) :
    (f.nearest m 1).natAbs < 2 ^ f.limit := by
  rw [two_pow_digits_mul_one, four_mul_one] at hkeeps
  have hshort := lt_two_pow_of_keeps f.digits_pos h.1 hkeeps
  have hone : f.one ≤ 2 ^ (f.digits + f.scale + 1) :=
    Nat.pow_le_pow_right (by decide) (by omega)
  have hdouble : 2 ^ (f.digits + f.scale + 2) = 2 * 2 ^ (f.digits + f.scale + 1) :=
    Nat.pow_succ'
  rw [natAbs_nearest]
  refine Nat.lt_of_le_of_lt (nearestUnits_le_two_pow ?_) (Nat.pow_lt_pow_right (by decide) hlimit)
  omega

end Format

/-! ## Values and their ranks -/

namespace Binary

variable {f : Format} {x y : Binary f} {a b : Int}

theorem signed_nearestUnits (negative : Bool) (n den : Nat) :
    signed negative (f.nearestUnits n den) = f.nearest (signed negative n) den := by
  cases negative with
  | false => exact (Format.nearest_natCast n den).symm
  | true =>
    show -_ = f.nearest (-n) den
    rw [Format.nearest_neg, Format.nearest_natCast]

theorem isNaN_eq_false_iff : x.isNaN = false ↔ ∃ a, x.rank = some a := by
  cases x <;> simp [rank, isNaN]

/-- Only the infinities stand at the limit. -/
theorem isFinite_iff_of_rank (h : x.rank = some a) :
    x.isFinite = true ↔ a.natAbs < 2 ^ f.limit := by
  cases x with
  | nan => cases h
  | infinite negative => simp [isFinite, ← Option.some.inj h]
  | finite negative m fits => simp [isFinite, ← Option.some.inj h, fits.2]

/-- A finite value and its place. -/
structure StandsAt (x : Binary f) (a : Int) : Prop where
  rank_eq : x.rank = some a
  isFinite : x.isFinite = true

theorem standsAt_of_rank (h : x.rank = some a) (ha : a.natAbs < 2 ^ f.limit) : x.StandsAt a :=
  ⟨h, (isFinite_iff_of_rank h).mpr ha⟩

theorem StandsAt.fits (h : x.StandsAt a) : f.Fits a.natAbs := by
  cases x with
  | nan | infinite => cases h.isFinite
  | finite negative m fits =>
    rw [← Option.some.inj h.rank_eq, natAbs_signed]
    exact fits

theorem exists_standsAt (h : x.isFinite = true) : ∃ a, x.StandsAt a := by
  cases x with
  | nan | infinite => cases h
  | finite => exact ⟨_, rfl, rfl⟩

theorem natAbs_rank_le (h : x.rank = some a) : a.natAbs ≤ 2 ^ f.limit := by
  cases x with
  | nan => cases h
  | infinite negative => simp [← Option.some.inj h]
  | finite negative m fits => simp [← Option.some.inj h, Nat.le_of_lt fits.2]

theorem eq_infinite_iff_of_rank (h : x.rank = some a) (negative : Bool) :
    x = .infinite negative ↔ a = signed negative (2 ^ f.limit) := by
  cases x with
  | nan => cases h
  | infinite other =>
    have hpos := Nat.two_pow_pos f.limit
    rw [← Option.some.inj h]
    generalize 2 ^ f.limit = limit at hpos
    cases other <;> cases negative <;> simp [signed] <;> omega
  | finite other m fits =>
    have hlt := fits.2
    rw [← Option.some.inj h]
    generalize 2 ^ f.limit = limit at hlt
    cases other <;> cases negative <;> simp [signed] <;> omega

/-- A value stands at the place nearest to its own. -/
theorem nearest_mul_of_rank (h : x.rank = some a) {den : Nat} (hden : 0 < den) :
    f.nearest (a * den) den = a := by
  refine Format.nearest_mul hden ?_ (natAbs_rank_le h)
  cases x with
  | nan => cases h
  | infinite negative =>
    rw [← Option.some.inj h, natAbs_signed]
    exact excess_two_pow_dvd f.digits_pos f.limit
  | finite negative m fits =>
    rw [← Option.some.inj h, natAbs_signed]
    exact fits.1

/-- Rounding does not go beyond a place where a value stands. -/
theorem nearest_le_of_rank (h : x.rank = some a) {n : Int} {den : Nat} (hden : 0 < den)
    (hle : n ≤ a * den) : f.nearest n den ≤ a := by
  have hmono := f.nearest_mono hden hle
  rwa [nearest_mul_of_rank h hden] at hmono

theorem le_nearest_of_rank (h : x.rank = some a) {n : Int} {den : Nat} (hden : 0 < den)
    (hle : a * den ≤ n) : a ≤ f.nearest n den := by
  have hmono := f.nearest_mono hden hle
  rwa [nearest_mul_of_rank h hden] at hmono

theorem lt_iff : x < y ↔ ∃ a b, x.rank = some a ∧ y.rank = some b ∧ a < b := by
  show compareRank _ x y = true ↔ _
  cases hx : x.rank <;> cases hy : y.rank <;> simp [compareRank, hx, hy]

theorem lt_iff_of_rank (hx : x.rank = some a) (hy : y.rank = some b) : x < y ↔ a < b := by
  simp [lt_iff, hx, hy]

theorem lt_irrefl (x : Binary f) : ¬x < x := by
  simp only [lt_iff]
  rintro ⟨a, b, ha, hb, hab⟩
  rw [ha] at hb
  exact absurd (Option.some.inj hb) (Int.ne_of_lt hab)

theorem not_nan_lt (y : Binary f) : ¬nan < y := by
  simp [lt_iff, rank]

theorem not_lt_nan (x : Binary f) : ¬x < nan := by
  simp [lt_iff, rank]

theorem le_iff : x ≤ y ↔ ∃ a b, x.rank = some a ∧ y.rank = some b ∧ a ≤ b := by
  show compareRank _ x y = true ↔ _
  cases hx : x.rank <;> cases hy : y.rank <;> simp [compareRank, hx, hy]

theorem le_iff_of_rank (hx : x.rank = some a) (hy : y.rank = some b) : x ≤ y ↔ a ≤ b := by
  simp [le_iff, hx, hy]

theorem equals_iff_of_rank (hx : x.rank = some a) (hy : y.rank = some b) :
    x.equals y = true ↔ a = b := by
  simp [equals, compareRank, hx, hy]

/-! ## Arithmetic -/

theorem rank_ofUnits (negative : Bool) (num den : Nat) :
    (ofUnits negative num den : Binary f).rank
      = some (f.nearest (signed negative num) den) := by
  rw [← signed_nearestUnits]
  simp only [ofUnits, Format.nearestUnits]
  split
  · rename_i hlt
    rw [Nat.min_eq_left (Nat.le_of_lt hlt)]
    rfl
  · rename_i hge
    rw [Nat.min_eq_right (Nat.not_lt.mp hge)]
    rfl

theorem standsAt_zero : (0 : Binary f).StandsAt 0 := by
  have hrank := rank_ofUnits (f := f) false (0 * f.one) 1
  rw [Nat.zero_mul, signed_false, Int.natCast_zero, Format.nearest_zero] at hrank
  refine standsAt_of_rank ?_ (Nat.two_pow_pos _)
  rw [← hrank, ← Nat.zero_mul f.one]
  rfl

/-- A natural number stands no further than the power of two above it. -/
theorem exists_rank_ofNat {n e : Nat} (h : n ≤ 2 ^ e) :
    ∃ m : Nat, (ofNat n : Binary f).rank = some (m : Int) ∧ m ≤ 2 ^ (e + f.scale) := by
  have hunits : n * f.one ≤ 2 ^ (e + f.scale) := by
    rw [Nat.pow_add]
    exact Nat.mul_le_mul_right _ h
  refine ⟨f.nearestUnits (n * f.one) 1, ?_, Format.nearestUnits_le_two_pow hunits⟩
  rw [← Format.nearest_natCast]
  exact rank_ofUnits false _ 1

theorem rank_neg (h : x.rank = some a) : (-x).rank = some (-a) := by
  cases x with
  | nan => cases h
  | infinite negative | finite negative =>
    show some (signed (!negative) _) = _
    rw [← Option.some.inj h]
    cases negative <;> simp [signed]

theorem StandsAt.neg (h : x.StandsAt a) : (-x).StandsAt (-a) := by
  refine ⟨rank_neg h.rank_eq, ?_⟩
  cases x with
  | nan | infinite => cases h.isFinite
  | finite => rfl

theorem StandsAt.abs (h : x.StandsAt a) : x.abs.StandsAt a.natAbs := by
  cases x with
  | nan | infinite => cases h.isFinite
  | finite s m =>
    rw [← Option.some.inj h.rank_eq, natAbs_signed]
    exact ⟨rfl, rfl⟩

/-- The sum of finite values stands nearest to the sum of their places. -/
theorem rank_add (hx : x.StandsAt a) (hy : y.StandsAt b) :
    (x + y).rank = some (f.nearest (a + b) 1) := by
  cases x with
  | nan | infinite => cases hx.isFinite
  | finite s m hm =>
  cases y with
  | nan | infinite => cases hy.isFinite
  | finite t n hn =>
  rw [← Option.some.inj hx.rank_eq, ← Option.some.inj hy.rank_eq]
  have hexact : ∀ negative k, signed negative k = signed s m + signed t n →
      (ofUnits negative k 1 : Binary f).rank = some (f.nearest (signed s m + signed t n) 1) := by
    intro negative k h
    rw [rank_ofUnits, h]
  show (add _ _).rank = _
  simp only [add]
  split
  · rename_i hsame
    subst hsame
    apply hexact
    cases s <;> simp only [signed_true, signed_false] <;> omega
  · rename_i hother
    have ht : t = !s := by cases s <;> cases t <;> simp at hother ⊢
    subst ht
    split
    · have hzero : signed s m + signed (!s) n = 0 := by
        cases s <;> simp only [Bool.not_true, Bool.not_false, signed_true, signed_false] <;> omega
      rw [hzero, Format.nearest_zero]
      rfl
    · split <;> apply hexact <;> cases s <;>
        simp only [Bool.not_true, Bool.not_false, signed_true, signed_false] <;> omega

theorem rank_sub (hx : x.StandsAt a) (hy : y.StandsAt b) :
    (x - y).rank = some (f.nearest (a - b) 1) :=
  rank_add hx hy.neg

/-- A finite sum has finite terms. -/
theorem isFinite_of_isFinite_add (h : (x + y).isFinite = true) :
    x.isFinite = true ∧ y.isFinite = true := by
  cases x with
  | nan => cases h
  | infinite s =>
    cases y with
    | nan | finite => cases h
    | infinite t =>
      revert h
      cases s <;> cases t <;> exact nofun
  | finite =>
    cases y with
    | nan | infinite => cases h
    | finite => exact ⟨rfl, rfl⟩

theorem isFinite_of_isFinite_sub (h : (x - y).isFinite = true) :
    x.isFinite = true ∧ y.isFinite = true := by
  obtain ⟨hx, hy⟩ := isFinite_of_isFinite_add (show (x + -y).isFinite = true from h)
  refine ⟨hx, ?_⟩
  cases y with
  | nan | infinite => cases hy
  | finite => rfl

/-- The product of finite values stands nearest to the product of their places. -/
theorem rank_mul (hx : x.StandsAt a) (hy : y.StandsAt b) :
    (x * y).rank = some (f.nearest (a * b) f.one) := by
  cases x with
  | nan | infinite => cases hx.isFinite
  | finite s m hm =>
  cases y with
  | nan | infinite => cases hy.isFinite
  | finite t n hn =>
  show (ofUnits (s != t) (m * n) f.one : Binary f).rank = _
  rw [rank_ofUnits, ← Option.some.inj hx.rank_eq, ← Option.some.inj hy.rank_eq, signed_mul]

theorem isFinite_of_isFinite_mul (h : (x * y).isFinite = true) :
    x.isFinite = true ∧ y.isFinite = true := by
  cases x with
  | nan => cases h
  | infinite s =>
    cases y with
    | nan | infinite => cases h
    | finite t n =>
      revert h
      show (if n = 0 then nan else infinite (s != t) : Binary f).isFinite = true → _
      split <;> exact nofun
  | finite s m =>
    cases y with
    | nan => cases h
    | infinite t =>
      revert h
      show (if m = 0 then nan else infinite (s != t) : Binary f).isFinite = true → _
      split <;> exact nofun
    | finite => exact ⟨rfl, rfl⟩

theorem StandsAt.eq_finite {n : Nat} (h : x.StandsAt n) (hpos : 0 < n) :
    ∃ hn, x = .finite false n hn := by
  cases x with
  | nan | infinite => cases h.isFinite
  | finite s k hk =>
    have hsigned : signed s k = n := Option.some.inj h.rank_eq
    cases s with
    | false =>
      obtain rfl : k = n := Int.ofNat.inj hsigned
      exact ⟨hk, rfl⟩
    | true =>
      rw [signed, if_pos rfl] at hsigned
      omega

/-- The quotient of finite values stands nearest to the quotient of their places. -/
theorem rank_div {n : Nat} (hx : x.StandsAt a) (hy : y.StandsAt n) (hn : 0 < n) :
    (x / y).rank = some (f.nearest (a * f.one) n) := by
  obtain ⟨_, rfl⟩ := hy.eq_finite hn
  cases x with
  | nan | infinite => cases hx.isFinite
  | finite s m hm =>
  show (if n = 0 then _ else ofUnits (s != false) (m * f.one) n : Binary f).rank = _
  rw [if_neg (Nat.ne_of_gt hn), rank_ofUnits, ← Option.some.inj hx.rank_eq, signed_mul,
    signed_false]

/-- An infinity times a number that is not below one stands at the limit again. -/
theorem rank_mul_of_one_le {n : Nat} (hx : x.rank = some a) (hy : y.StandsAt n)
    (hn : f.one ≤ n) : (x * y).rank = some (f.nearest (a * n) f.one) := by
  cases hxf : x.isFinite with
  | true => exact rank_mul ⟨hx, hxf⟩ hy
  | false =>
  cases x with
  | nan => cases hx
  | finite => cases hxf
  | infinite s =>
    have hpos : 0 < n := Nat.lt_of_lt_of_le f.one_pos hn
    obtain ⟨_, rfl⟩ := hy.eq_finite hpos
    have hlimit : f.nearestUnits (2 ^ f.limit * n) f.one = 2 ^ f.limit := by
      apply Nat.le_antisymm (f.nearestUnits_le _ _)
      have hkeep := Format.nearestUnits_mul f.one_pos
        (excess_two_pow_dvd f.digits_pos f.limit) (Nat.le_refl _)
      have hmono := f.nearestUnits_mono f.one_pos (Nat.mul_le_mul_left (2 ^ f.limit) hn)
      rwa [hkeep] at hmono
    have hproduct : a * n = signed s (2 ^ f.limit * n) := by
      have hmul := signed_mul s false (2 ^ f.limit) n
      rw [Bool.bne_false] at hmul
      rw [hmul, ← Option.some.inj hx, signed_false]
    rw [hproduct, ← signed_nearestUnits, hlimit]
    show (if n = 0 then nan else infinite (s != false) : Binary f).rank = _
    rw [if_neg (Nat.ne_of_gt hpos), Bool.bne_false]
    rfl

/-- When such a product does not go to the upper infinity. -/
theorem mul_ne_infinite_iff {n : Nat} (hy : y.StandsAt n) (hn : f.one ≤ n) :
    x * y ≠ .infinite false
      ↔ ∀ a, x.rank = some a → f.nearest (a * n) f.one < (2 ^ f.limit : Nat) := by
  cases hx : x.rank with
  | none =>
    cases x with
    | nan => exact ⟨fun _ => nofun, fun _ => nofun⟩
    | infinite | finite => cases hx
  | some a =>
    have hproduct := rank_mul_of_one_le hx hy hn
    have hle := natAbs_rank_le hproduct
    show ¬x * y = .infinite false ↔ _
    rw [eq_infinite_iff_of_rank hproduct false, signed, if_neg Bool.false_ne_true]
    constructor
    · intro h b hb
      rw [← Option.some.inj hb]
      omega
    · intro h
      have hlt := h a rfl
      omega

/-! ## The largest and the smallest value -/

/-- A value and its rank that are the best of `x` and `values`, by an order of ranks. -/
structure IsBest (le : Int → Int → Prop) (x : Binary f) (values : List (Binary f))
    (best : Binary f) (r : Int) : Prop where
  eq_or_mem : best = x ∨ best ∈ values
  rank_eq : best.rank = some r
  le_first : ∀ a, x.rank = some a → le a r
  le_of_mem : ∀ v ∈ values, ∀ a, v.rank = some a → le a r

section

variable {le : Int → Int → Prop} (hrefl : ∀ a, le a a)

include hrefl

theorem isBest_first {values : List (Binary f)} (hx : x.rank = some a)
    (h : ∀ v ∈ values, ∀ b, v.rank = some b → le b a) : IsBest le x values x a where
  eq_or_mem := .inl rfl
  rank_eq := hx
  le_first b hb := by
    rw [Option.some.inj (hb.symm.trans hx)]
    exact hrefl a
  le_of_mem := h

theorem isBest_second (hx : x.rank = some a) (hy : y.rank = some b) (h : le a b) :
    IsBest le x [y] y b where
  eq_or_mem := .inr (List.mem_singleton_self y)
  rank_eq := hy
  le_first c hc := by
    rw [Option.some.inj (hc.symm.trans hx)]
    exact h
  le_of_mem v hv c hc := by
    rw [List.mem_singleton.mp hv] at hc
    rw [Option.some.inj (hc.symm.trans hy)]
    exact hrefl b

end

/-- The better of two values, of which only the second one may be a NaN. -/
theorem exists_isBest_ite (le : Int → Int → Prop) (hrefl : ∀ a, le a a) {worse : Prop} [Decidable worse] (hx : x.rank = some a)
    (hworse : worse ↔ ∃ b, y.rank = some b ∧ ¬le b a) (htotal : ∀ b, ¬le b a → le a b) :
    ∃ r, IsBest le x [y] (if worse then y else x) r := by
  split
  · rename_i h
    obtain ⟨b, hb, hle⟩ := hworse.mp h
    exact ⟨b, isBest_second hrefl hx hb (htotal b hle)⟩
  · rename_i h
    refine ⟨a, isBest_first hrefl hx ?_⟩
    intro v hv b hb
    rw [List.mem_singleton.mp hv] at hb
    exact Classical.not_not.mp fun hle => h (hworse.mpr ⟨b, hb, hle⟩)

theorem isBest_maximum (h : x.rank = some a) (y : Binary f) :
    ∃ r, IsBest (· ≤ ·) x [y] (maximum x y) r := by
  have hx : x.isNaN = false := isNaN_eq_false_iff.mpr ⟨a, h⟩
  rw [maximum, hx, if_neg Bool.false_ne_true]
  apply exists_isBest_ite (· ≤ ·) Int.le_refl h
  · simp [lt_iff, h]
  · intro b hb
    omega

theorem isBest_minimum (h : x.rank = some a) (y : Binary f) :
    ∃ r, IsBest (· ≥ ·) x [y] (minimum x y) r := by
  have hx : x.isNaN = false := isNaN_eq_false_iff.mpr ⟨a, h⟩
  rw [minimum, hx, if_neg Bool.false_ne_true]
  apply exists_isBest_ite (· ≥ ·) Int.le_refl h
  · simp [lt_iff, h]
  · intro b hb
    omega

/-- Going through values with a choice between two of them ends at the best of all. -/
theorem exists_isBest_foldl (le : Int → Int → Prop) {pick : Binary f → Binary f → Binary f}
    (hrefl : ∀ a, le a a) (htrans : ∀ {a b c}, le a b → le b c → le a c)
    (hpick : ∀ {x a}, x.rank = some a → ∀ y, ∃ r, IsBest le x [y] (pick x y) r)
    (values : List (Binary f)) :
    ∀ (x : Binary f) (a : Int), x.rank = some a →
      ∃ r, IsBest le x values (values.foldl pick x) r := by
  induction values with
  | nil =>
    intro x a h
    exact ⟨a, isBest_first hrefl h nofun⟩
  | cons v values ih =>
    intro x a h
    obtain ⟨r₁, hfirst⟩ := hpick h v
    obtain ⟨r, hrest⟩ := ih (pick x v) r₁ hfirst.rank_eq
    have hle : le r₁ r := hrest.le_first r₁ hfirst.rank_eq
    refine ⟨r, ?_, hrest.rank_eq, ?_, ?_⟩
    · rcases hrest.eq_or_mem with heq | hmem
      · rw [List.foldl_cons, heq]
        rcases hfirst.eq_or_mem with hx | hv
        · exact .inl hx
        · exact .inr (List.mem_cons.mpr (.inl (List.mem_singleton.mp hv)))
      · exact .inr (List.mem_cons_of_mem v hmem)
    · intro b hb
      exact htrans (hfirst.le_first b hb) hle
    · intro w hw b hb
      rcases List.mem_cons.mp hw with rfl | hw
      · exact htrans (hfirst.le_of_mem w (List.mem_singleton_self w) b hb) hle
      · exact hrest.le_of_mem w hw b hb

end Binary

end BenchCharts
