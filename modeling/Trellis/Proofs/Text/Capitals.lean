/-!
# ASCII letters and their capitals

Small letters and capitals are told by their codes, and a change of case is one by thirty-two.

* `isLower_iff`, `isUpper_iff`: the codes of either case.
* `toLower_toUpper`: a character that is no capital is found again from its capital, so the capital
  tells the small letter (`toUpper_inj_of_isLower`).
-/

namespace Trellis.Text

variable {c d : Char}

theorem isLower_iff : c.isLower = true ↔ 97 ≤ c.toNat ∧ c.toNat ≤ 122 :=
  Bool.and_eq_true_iff.trans (and_congr decide_eq_true_iff decide_eq_true_iff)

theorem isUpper_iff : c.isUpper = true ↔ 65 ≤ c.toNat ∧ c.toNat ≤ 90 := decide_eq_true_iff

theorem isAlpha_of_isUpper (h : c.isUpper = true) : c.isAlpha = true :=
  Bool.or_eq_true_iff.mpr (.inl h)

theorem isAlphanum_of_isAlpha (h : c.isAlpha = true) : c.isAlphanum = true :=
  Bool.or_eq_true_iff.mpr (.inl h)

theorem toNat_lt_of_isLower (h : c.isLower = true) : c.toNat < 128 := by
  have hcode := isLower_iff.mp h
  omega

theorem toNat_lt_of_isUpper (h : c.isUpper = true) : c.toNat < 128 := by
  have hcode := isUpper_iff.mp h
  omega

theorem isUpper_of_isLower (h : c.isLower = true) : c.isUpper = false := by
  have hcode := isLower_iff.mp h
  refine Bool.eq_false_iff.mpr fun hupper => ?_
  have hcapital := isUpper_iff.mp hupper
  omega

/-! ## Changing the case -/

theorem toNat_toUpper (h : c.isLower = true) : c.toUpper.toNat = c.toNat - 32 := by
  have hcode := isLower_iff.mp h
  have hrange : 'a'.val ≤ c.val ∧ c.val ≤ 'z'.val := hcode
  have hupper : c.toUpper = ⟨c.val + ('A'.val - 'a'.val), _⟩ := dif_pos hrange
  rw [hupper]
  change (c.val + ('A'.val - 'a'.val)).toNat = c.val.toNat - 32
  rw [UInt32.toNat_add]
  -- Taking thirty-two away is adding its complement.
  change (c.toNat + 4294967264) % 4294967296 = c.toNat - 32
  omega

theorem toNat_toLower (h : c.isUpper = true) : c.toLower.toNat = c.toNat + 32 := by
  have hcode := isUpper_iff.mp h
  have hrange : 'A'.val ≤ c.val ∧ c.val ≤ 'Z'.val := hcode
  have hlower : c.toLower = ⟨c.val + ('a'.val - 'A'.val), _⟩ := dif_pos hrange
  rw [hlower]
  change (c.val + ('a'.val - 'A'.val)).toNat = c.val.toNat + 32
  rw [UInt32.toNat_add]
  change (c.toNat + 32) % 4294967296 = c.toNat + 32
  omega

theorem toUpper_of_not_isLower (h : c.isLower = false) : c.toUpper = c := by
  refine dif_neg fun hrange => ?_
  rw [isLower_iff.mpr hrange] at h
  cases h

theorem toLower_of_not_isUpper (h : c.isUpper = false) : c.toLower = c := by
  refine dif_neg fun hrange => ?_
  rw [isUpper_iff.mpr hrange] at h
  cases h

theorem isUpper_toUpper (h : c.isLower = true) : c.toUpper.isUpper = true := by
  have hcode := isLower_iff.mp h
  rw [isUpper_iff, toNat_toUpper h]
  omega

theorem toLower_toUpper (h : c.isUpper = false) : c.toUpper.toLower = c := by
  cases hlower : c.isLower with
  | false => rw [toUpper_of_not_isLower hlower, toLower_of_not_isUpper h]
  | true =>
    have hcode := isLower_iff.mp hlower
    refine Char.toNat_inj.mp ?_
    rw [toNat_toLower (isUpper_toUpper hlower), toNat_toUpper hlower]
    omega

theorem toUpper_inj_of_isLower (hc : c.isLower = true) (hd : d.isLower = true)
    (h : c.toUpper = d.toUpper) : c = d := by
  rw [← toLower_toUpper (isUpper_of_isLower hc), h, toLower_toUpper (isUpper_of_isLower hd)]

end Trellis.Text
