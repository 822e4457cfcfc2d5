import Mathlib.Analysis.Real.Sqrt
import OrcaValidator.Library.Text

/-!
# Rendering a page

The resolution at which `_ocr_page_image` renders a page: the requested one, unless the
estimated image is too large.  Sizes are exact rationals and a root is rounded down, where
the program computes with floating-point numbers.
-/

namespace OrcaValidator

open Library

/-- The content of a file. -/
abbrev Bytes := List UInt8

/-- A page as PyMuPDF opens it: its embedded text, its size in points, and what is on it. -/
structure FitzPage where
  text : Text
  width : ℚ
  height : ℚ
  content : Bytes

/-- The most pixels that a page should be rendered with.  `MAX_RENDER_PIXELS`. -/
def maxRenderPixels : ℚ := 25000000

/-- `est_px`. -/
def estimatedPixels (page : FitzPage) (dpi : ℤ) : ℚ :=
  (page.width * dpi / 72) * (page.height * dpi / 72)

/-- The root of a number, rounded down. -/
def floorSqrt (number : ℚ) : ℕ := Nat.sqrt ⌊number⌋₊

/-- `int(dpi * ratio ** 0.5)`, which rounds towards zero. -/
def scaledDpi (dpi : ℤ) (ratio : ℚ) : ℤ := dpi.sign * floorSqrt (dpi ^ 2 * ratio)

/-- The resolution that `_ocr_page_image` passes to `get_pixmap`. -/
def renderDpi (page : FitzPage) (dpi : ℤ) : ℤ :=
  let estimate := estimatedPixels page dpi
  if maxRenderPixels < estimate ∧ 0 < estimate then
    max 36 (scaledDpi dpi (maxRenderPixels / estimate))
  else dpi

/-! ## Roots -/

theorem le_floorSqrt_iff {number : ℚ} (positive : 0 ≤ number) {bound : ℕ} :
    bound ≤ floorSqrt number ↔ (bound : ℚ) ^ 2 ≤ number := by
  rw [floorSqrt, Nat.le_sqrt', Nat.le_floor_iff positive, Nat.cast_pow]

/-- What is computed for the scaled resolution is the real number, rounded down. -/
theorem scaledDpi_eq_floor {dpi : ℤ} {ratio : ℚ} (requested : 1 ≤ dpi) (positive : 0 ≤ ratio) :
    scaledDpi dpi ratio = ⌊(dpi : ℝ) * √(ratio : ℝ)⌋ := by
  have square : 0 ≤ (dpi : ℚ) ^ 2 * ratio := by positivity
  have root : (dpi : ℝ) * √(ratio : ℝ) = √(((dpi : ℚ) ^ 2 * ratio : ℚ) : ℝ) := by
    have sign : (0 : ℝ) ≤ dpi := by exact_mod_cast (by omega : 0 ≤ dpi)
    push_cast
    rw [Real.sqrt_mul (by positivity), Real.sqrt_sq sign]
  have below := (le_floorSqrt_iff square).mp le_rfl
  have above : (dpi : ℚ) ^ 2 * ratio < ((floorSqrt (dpi ^ 2 * ratio) + 1 : ℕ) : ℚ) ^ 2 := by
    rw [← not_le, ← le_floorSqrt_iff square]
    omega
  rw [scaledDpi, Int.sign_eq_one_of_pos (by omega), one_mul, root, eq_comm, Int.floor_eq_iff]
  constructor
  · apply Real.le_sqrt_of_sq_le
    exact_mod_cast below
  · rw [Real.sqrt_lt' (by positivity)]
    exact_mod_cast above

/-! ## The cap -/

/-- The highest resolution at which a page fits. -/
def fittingDpi (page : FitzPage) : ℕ :=
  floorSqrt (maxRenderPixels / (page.width * page.height / 5184))

variable {page : FitzPage}

theorem estimatedPixels_le_iff (width : 0 < page.width) (height : 0 < page.height) {dpi : ℕ} :
    estimatedPixels page dpi ≤ maxRenderPixels ↔ dpi ≤ fittingDpi page := by
  have area : 0 < page.width * page.height / 5184 := by positivity
  have estimate : estimatedPixels page dpi =
      (dpi : ℚ) ^ 2 * (page.width * page.height / 5184) := by
    simp only [estimatedPixels, Int.cast_natCast]
    ring
  have cap : 0 ≤ maxRenderPixels / (page.width * page.height / 5184) :=
    div_nonneg (by norm_num [maxRenderPixels]) area.le
  rw [fittingDpi, le_floorSqrt_iff cap, le_div_iff₀ area, estimate]

theorem renderDpi_eq (width : 0 < page.width) (height : 0 < page.height) {dpi : ℕ}
    (requested : 1 ≤ dpi) :
    renderDpi page dpi = if dpi ≤ fittingDpi page then (dpi : ℤ) else max 36 (fittingDpi page) := by
  have sign : (0 : ℚ) < dpi := by exact_mod_cast requested
  have positive : 0 < estimatedPixels page dpi := by
    simp only [estimatedPixels, Int.cast_natCast]
    positivity
  have same : (dpi : ℚ) ^ 2 * (maxRenderPixels / estimatedPixels page dpi) =
      maxRenderPixels / (page.width * page.height / 5184) := by
    simp only [estimatedPixels, Int.cast_natCast]
    field_simp
    norm_num
  have scaled : scaledDpi dpi (maxRenderPixels / estimatedPixels page dpi) = fittingDpi page := by
    rw [scaledDpi, Int.sign_eq_one_of_pos (by omega), one_mul, fittingDpi, ← same,
      Int.cast_natCast]
  rw [renderDpi, scaled]
  by_cases fits : dpi ≤ fittingDpi page
  · have small := (estimatedPixels_le_iff width height).mpr fits
    rw [if_pos fits, if_neg (fun large => absurd small (not_le.mpr large.1))]
  · have large := not_le.mp (mt (estimatedPixels_le_iff width height).mp fits)
    rw [if_neg fits, if_pos ⟨large, positive⟩]

/-- A page that fits neither as requested nor at 36 dots per inch is rendered at 36. -/
theorem renderDpi_of_huge {dpi : ℕ} (width : 0 < page.width) (height : 0 < page.height)
    (requested : 1 ≤ dpi) (large : maxRenderPixels < estimatedPixels page dpi)
    (huge : maxRenderPixels < estimatedPixels page 36) : renderDpi page dpi = 36 := by
  have fits {resolution : ℕ} := @estimatedPixels_le_iff page width height resolution
  have minimal : ¬36 ≤ fittingDpi page := fun fitting => absurd (fits.mpr fitting) (not_le.mpr huge)
  rw [renderDpi_eq width height requested, if_neg (fun fitting =>
    absurd (fits.mpr fitting) (not_le.mpr large))]
  omega

/-- Within the cap and the request, exactly if the page fits at 36 dots per inch or at the
requested resolution. -/
theorem renderDpi_capped_iff {dpi : ℤ} (width : 0 < page.width) (height : 0 < page.height)
    (requested : 1 ≤ dpi) :
    renderDpi page dpi ≤ dpi ∧ estimatedPixels page (renderDpi page dpi) ≤ maxRenderPixels ↔
      estimatedPixels page 36 ≤ maxRenderPixels ∨ estimatedPixels page dpi ≤ maxRenderPixels := by
  rcases Int.eq_ofNat_of_zero_le (by omega : 0 ≤ dpi) with ⟨count, rfl⟩
  have fits {resolution : ℕ} := @estimatedPixels_le_iff page width height resolution
  have minimal : estimatedPixels page 36 ≤ maxRenderPixels ↔ 36 ≤ fittingDpi page := fits
  have chosen := renderDpi_eq width height (by omega : 1 ≤ count)
  rw [minimal, fits]
  by_cases small : count ≤ fittingDpi page
  · rw [if_pos small] at chosen
    rw [chosen, fits]
    omega
  · rw [if_neg small, ← Nat.cast_ofNat, ← Nat.cast_max] at chosen
    rw [chosen, fits]
    omega

theorem renderDpi_capped_iff_letter :
    (0 < (612 : ℚ) ∧ 0 < (792 : ℚ)) ∧
      (renderDpi ⟨[], 612, 792, []⟩ 200 ≤ 200 ∧
          estimatedPixels ⟨[], 612, 792, []⟩ (renderDpi ⟨[], 612, 792, []⟩ 200) ≤
            maxRenderPixels ↔
        estimatedPixels ⟨[], 612, 792, []⟩ 36 ≤ maxRenderPixels ∨
          estimatedPixels ⟨[], 612, 792, []⟩ 200 ≤ maxRenderPixels) :=
  ⟨by norm_num, renderDpi_capped_iff (by norm_num) (by norm_num) (by norm_num)⟩

/-- A page of 20000 by 20000 points is rendered with four times the pixels of the cap. -/
theorem renderDpi_uncapped :
    ¬∀ (page : FitzPage) (dpi : ℤ), 0 < page.width → 0 < page.height → 1 ≤ dpi →
      renderDpi page dpi ≤ dpi ∧
        estimatedPixels page (renderDpi page dpi) ≤ maxRenderPixels := by
  intro capped
  have result := (capped ⟨[], 20000, 20000, []⟩ (200 : ℕ) (by norm_num) (by norm_num)
    (by norm_num)).2
  rw [renderDpi_of_huge (by norm_num) (by norm_num) (by norm_num)
    (by norm_num [estimatedPixels, maxRenderPixels])
    (by norm_num [estimatedPixels, maxRenderPixels])] at result
  norm_num [estimatedPixels, maxRenderPixels] at result

end OrcaValidator
