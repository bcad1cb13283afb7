import Mathlib.Tactic.FieldSimp
import Mst5Client.HalfUpRounding
import Mst5Client.IdentityMessages

set_option autoImplicit false

/-!
# Sizes of decoded previews

`decode_image_bytes` scales a picture down to a side limit and a pixel limit.
-/
namespace Mst5Client.ImagePreviews
open ByteOrder IoResult HalfUpRounding
open IdentityMessages (saturatingMul)

section Decoding

def maxImageInputBytes : ℕ := 12 * 1024 * 1024

def maxImageSourcePixels : ℕ := 64 * 1024 * 1024

def maxImageOutputPixels : ℕ := 4 * 1024 * 1024

/-- The formats that are told apart. -/
inductive ImageFormat where
  | jpeg
  | png
  | webP
  | other
deriving DecidableEq, Repr

structure Rgba where
  red : UInt8
  green : UInt8
  blue : UInt8
  alpha : UInt8
deriving DecidableEq, Repr

structure ImageLibrary where
  DynamicImage : Type
  guessFormat : Bytes → Except String ImageFormat
  loadFromMemoryWithFormat : Bytes → ImageFormat → Except String DynamicImage
  exifOrientation : Bytes → Option ℕ
  dimensions : DynamicImage → ℕ × ℕ
  fliph : DynamicImage → DynamicImage
  flipv : DynamicImage → DynamicImage
  rotate90 : DynamicImage → DynamicImage
  rotate180 : DynamicImage → DynamicImage
  rotate270 : DynamicImage → DynamicImage
  resizeExact : DynamicImage → ℕ → ℕ → DynamicImage
  toRgba8 : DynamicImage → List Rgba

structure DecodedImage where
  width : ℕ
  height : ℕ
  argb : List UInt32
deriving DecidableEq, Repr

variable (lib : ImageLibrary)

def jpegOrientation (bytes : Bytes) : ℕ := (lib.exifOrientation bytes).getD 1

def applyExifOrientation (image : lib.DynamicImage) : ℕ → lib.DynamicImage
  | 2 => lib.fliph image
  | 3 => lib.rotate180 image
  | 4 => lib.flipv image
  | 5 => lib.fliph (lib.rotate90 image)
  | 6 => lib.rotate90 image
  | 7 => lib.fliph (lib.rotate270 image)
  | 8 => lib.rotate270 image
  | _ => image

def imageError (text : String) : IoError := invalidData text

def DimensionsExceed (width height : ℕ) : Prop :=
  width = 0 ∨ height = 0 ∨ maxImageSourcePixels < saturatingMul 64 width height

instance (width height : ℕ) : Decidable (DimensionsExceed width height) :=
  inferInstanceAs (Decidable (_ ∨ _ ∨ _))

def loadSupportedImage (bytes : Bytes) : Except IoError lib.DynamicImage :=
  if bytes = [] ∨ maxImageInputBytes < bytes.length then
    .error (invalidInput "image input must contain 1..12582912 bytes")
  else (lib.guessFormat bytes).mapError imageError >>= fun format =>
    if format ≠ .jpeg ∧ format ≠ .png ∧ format ≠ .webP then
      .error (invalidInput "only JPEG, PNG and WebP images are supported")
    else (lib.loadFromMemoryWithFormat bytes format).mapError imageError >>= fun loaded =>
      let image := if format = .jpeg then
        applyExifOrientation lib loaded (jpegOrientation lib bytes) else loaded
      if DimensionsExceed (lib.dimensions image).1 (lib.dimensions image).2 then
        .error (invalidInput "image dimensions exceed the 64 MP decode limit")
      else .ok image

def sideLimit (maxSide : ℕ) : ℕ := max maxSide 1

def pixelLimit (maxPixels : ℕ) : ℕ := min (max maxPixels 1) maxImageOutputPixels

noncomputable def sideScale (maxSide width height : ℕ) : ℝ :=
  min ((maxSide : ℝ) / (max width height : ℕ)) 1

noncomputable def pixelScale (maxPixels sourcePixels : ℕ) : ℝ :=
  min √((maxPixels : ℝ) / sourcePixels) 1

noncomputable def targetSide (scale : ℝ) (side : ℕ) : ℕ :=
  max (min (roundHalfUp (side * scale)) (2 ^ 32 - 1)) 1

def argbOf (pixel : Rgba) : UInt32 :=
  (pixel.alpha.toUInt32 <<< 24) ||| (pixel.red.toUInt32 <<< 16) ||| (pixel.green.toUInt32 <<< 8) |||
    pixel.blue.toUInt32

noncomputable def decodeImageBytes (bytes : Bytes) (maxSide maxPixels : ℕ) :
    Except IoError DecodedImage :=
  if bytes = [] ∨ maxImageInputBytes < bytes.length then
    .error (invalidInput "image input must contain 1..12582912 bytes")
  else loadSupportedImage lib bytes >>= fun image =>
    let width := (lib.dimensions image).1
    let height := (lib.dimensions image).2
    if DimensionsExceed width height then
      .error (invalidInput "image dimensions exceed the 64 MP decode limit")
    else
      let scale := min (sideScale (sideLimit maxSide) width height)
        (pixelScale (pixelLimit maxPixels) (saturatingMul 64 width height))
      let targetWidth := targetSide scale width
      let targetHeight := targetSide scale height
      let target :=
        if targetWidth ≠ width ∨ targetHeight ≠ height then
          lib.resizeExact image targetWidth targetHeight
        else image
      .ok ⟨targetWidth, targetHeight, (lib.toRgba8 target).map argbOf⟩

variable {limit pixels side other width height a : ℕ}

def sideLength (limit pixels side other : ℕ) : ℕ :=
  max 1 (min side (min ((2 * (side * limit) / max side other + 1) / 2)
    ((Nat.sqrt (4 * (pixels * side) / other) + 1) / 2)))

theorem sideScale_comm (limit width height : ℕ) :
    sideScale limit width height = sideScale limit height width := by
  rw [sideScale, sideScale, max_comm]

theorem side_mul_sideScale : (side : ℝ) * sideScale limit side other =
    min (((side * limit : ℕ) : ℝ) / (max side other : ℕ)) side := by
  rw [sideScale, mul_min_of_nonneg _ _ side.cast_nonneg, mul_one, Nat.cast_mul, mul_div_assoc]

theorem side_mul_pixelScale (hside : 0 < side) (hother : 0 < other) :
    (side : ℝ) * pixelScale pixels (side * other) = min √(((pixels * side : ℕ) : ℝ) / other) side := by
  have hs : (side : ℝ) ≠ 0 := Nat.cast_ne_zero.mpr hside.ne'
  have ho : (other : ℝ) ≠ 0 := Nat.cast_ne_zero.mpr hother.ne'
  have hsquare : ((pixels * side : ℕ) : ℝ) / other = (side : ℝ) ^ 2 *
      (pixels / (side * other : ℕ)) := by
    push_cast
    field_simp
  rw [pixelScale, mul_min_of_nonneg _ _ side.cast_nonneg, mul_one, hsquare, Real.sqrt_mul (sq_nonneg _),
    Real.sqrt_sq side.cast_nonneg]

theorem roundHalfUp_side (hside : 0 < side) (hother : 0 < other) :
    roundHalfUp ((side : ℝ) * min (sideScale limit side other) (pixelScale pixels (side * other))) =
      min side (min ((2 * (side * limit) / max side other + 1) / 2)
        ((Nat.sqrt (4 * (pixels * side) / other) + 1) / 2)) := by
  rw [mul_min_of_nonneg _ _ side.cast_nonneg, side_mul_sideScale, side_mul_pixelScale hside hother,
    roundHalfUp_min, roundHalfUp_min, roundHalfUp_min, roundHalfUp_natCast, roundHalfUp_div,
    roundHalfUp_sqrt_div]
  omega

theorem targetSide_eq (hside : 0 < side) (hother : 0 < other) (hmax : side < 2 ^ 32) :
    targetSide (min (sideScale limit side other) (pixelScale pixels (side * other))) side =
      sideLength limit pixels side other := by
  rw [targetSide, roundHalfUp_side hside hother, sideLength]
  omega

/-- A side that is scaled stays within a length, said of whole numbers. -/
def Within (limit pixels side other a : ℕ) : Prop :=
  side ≤ a ∨ 2 * (side * limit) < (2 * a + 1) * max side other ∨
    4 * (pixels * side) < (2 * a + 1) ^ 2 * other

instance (limit pixels side other a : ℕ) : Decidable (Within limit pixels side other a) :=
  inferInstanceAs (Decidable (_ ∨ _ ∨ _))

theorem sideLength_le_iff (hother : 0 < other) :
    sideLength limit pixels side other ≤ a ↔ 0 < a ∧ Within limit pixels side other a := by
  have hmax : 0 < max side other := lt_max_of_lt_right hother
  rw [sideLength, max_le_iff, min_le_iff, min_le_iff, rounded_div_le_iff hmax,
    rounded_sqrt_le_iff hother]
  rfl

theorem sideLength_eq_succ (hother : 0 < other)
    (hlow : ¬ (0 < a ∧ Within limit pixels side other a))
    (hhigh : Within limit pixels side other (a + 1)) :
    sideLength limit pixels side other = a + 1 := by
  refine le_antisymm ((sideLength_le_iff hother).mpr ⟨a.succ_pos, hhigh⟩) (Nat.lt_of_not_le fun h => ?_)
  exact hlow ((sideLength_le_iff hother).mp h)

theorem sideLength_le_limit (hother : 0 < other) (hlimit : 0 < limit) :
    sideLength limit pixels side other ≤ limit := by
  refine (sideLength_le_iff hother).mpr ⟨hlimit, .inr (.inl ?_)⟩
  have hmax : 0 < max side other := lt_max_of_lt_right hother
  calc 2 * (side * limit) ≤ 2 * (max side other * limit) :=
        Nat.mul_le_mul_left 2 (Nat.mul_le_mul_right limit (le_max_left side other))
    _ = 2 * limit * max side other := by ring
    _ < (2 * limit + 1) * max side other := Nat.mul_lt_mul_of_pos_right (Nat.lt_succ_self _) hmax

/-- Both sides together. -/
def Fits (limit pixels width height : ℕ) : Prop :=
  ∃ a b, 0 < a ∧ 0 < b ∧ a * b ≤ pixels ∧ Within limit pixels width height a ∧
    Within limit pixels height width b

/-- A picture within the pixel limit fits as it is. -/
theorem fits_of_mul_le (hwidth : 0 < width) (hheight : 0 < height) (h : width * height ≤ pixels) :
    Fits limit pixels width height :=
  ⟨width, height, hwidth, hheight, h, .inl le_rfl, .inl le_rfl⟩

theorem sideLengths_fit_iff (hwidth : 0 < width) (hheight : 0 < height) :
    sideLength limit pixels width height * sideLength limit pixels height width ≤ pixels ↔
      Fits limit pixels width height := by
  constructor
  · intro h
    obtain ⟨ha, hwithin⟩ := (sideLength_le_iff hheight).mp
      (le_refl (sideLength limit pixels width height))
    obtain ⟨hb, hwithin'⟩ := (sideLength_le_iff hwidth).mp
      (le_refl (sideLength limit pixels height width))
    exact ⟨_, _, ha, hb, h, hwithin, hwithin'⟩
  · rintro ⟨a, b, ha, hb, hpixels, hwithin, hwithin'⟩
    exact (Nat.mul_le_mul ((sideLength_le_iff hheight).mpr ⟨ha, hwithin⟩)
      ((sideLength_le_iff hwidth).mpr ⟨hb, hwithin'⟩)).trans hpixels

end Decoding

variable {lib : ImageLibrary} {bytes : Bytes} {image : lib.DynamicImage} {width height : ℕ}

theorem saturatingMul_of_not_exceed (h : ¬ DimensionsExceed width height) :
    0 < width ∧ 0 < height ∧ saturatingMul 64 width height = width * height ∧
      width * height ≤ maxImageSourcePixels := by
  simp only [DimensionsExceed, not_or] at h
  obtain ⟨hwidth, hheight, hpixels⟩ := h
  unfold saturatingMul maxImageSourcePixels at *
  omega

theorem loadSupportedImage_ok (h : loadSupportedImage lib bytes = .ok image) :
    ¬ (bytes = [] ∨ maxImageInputBytes < bytes.length) ∧
      ¬ DimensionsExceed (lib.dimensions image).1 (lib.dimensions image).2 := by
  obtain ⟨hbytes, hformat⟩ := ite_error_eq_ok.mp h
  obtain ⟨format, -, hsupported⟩ := bind_eq_ok hformat
  obtain ⟨-, hload⟩ := ite_error_eq_ok.mp hsupported
  obtain ⟨loaded, -, hchecked⟩ := bind_eq_ok hload
  obtain ⟨hdimensions, heq⟩ := ite_error_eq_ok.mp hchecked
  cases heq
  exact ⟨hbytes, hdimensions⟩

theorem decodeImageBytes_of_load (h : loadSupportedImage lib bytes = .ok image)
    (hdimensions : lib.dimensions image = (width, height)) (maxSide maxPixels : ℕ) :
    ∃ argb, decodeImageBytes lib bytes maxSide maxPixels =
      .ok ⟨sideLength (sideLimit maxSide) (pixelLimit maxPixels) width height,
        sideLength (sideLimit maxSide) (pixelLimit maxPixels) height width, argb⟩ := by
  obtain ⟨hbytes, hexceed⟩ := loadSupportedImage_ok h
  rw [hdimensions] at hexceed
  obtain ⟨hwidth, hheight, hproduct, hpixels⟩ := saturatingMul_of_not_exceed hexceed
  have hsource : maxImageSourcePixels < 2 ^ 32 := by decide
  have hw : width < 2 ^ 32 :=
    (Nat.le_mul_of_pos_right width hheight).trans_lt (hpixels.trans_lt hsource)
  have hh : height < 2 ^ 32 :=
    (Nat.le_mul_of_pos_left height hwidth).trans_lt (hpixels.trans_lt hsource)
  rw [decodeImageBytes, if_neg hbytes, bind_of_ok h]
  dsimp only
  rw [hdimensions, if_neg hexceed, hproduct, targetSide_eq hwidth hheight hw]
  rw [sideScale_comm, mul_comm width, targetSide_eq hheight hwidth hh]
  exact ⟨_, rfl⟩

/-- The limits that a preview is asked to respect. -/
structure Respects (decoded : DecodedImage) (maxSide maxPixels : ℕ) : Prop where
  width : decoded.width ≤ max 1 maxSide
  height : decoded.height ≤ max 1 maxSide
  pixels : decoded.width * decoded.height ≤ max 1 (min maxPixels maxImageOutputPixels)

theorem pixelLimit_eq (maxPixels : ℕ) :
    pixelLimit maxPixels = max 1 (min maxPixels maxImageOutputPixels) := by
  unfold pixelLimit maxImageOutputPixels
  omega

theorem respects_iff {argb : List UInt32} {maxSide maxPixels : ℕ} (hwidth : 0 < width)
    (hheight : 0 < height) :
    Respects ⟨sideLength (sideLimit maxSide) (pixelLimit maxPixels) width height,
        sideLength (sideLimit maxSide) (pixelLimit maxPixels) height width, argb⟩ maxSide maxPixels ↔
      Fits (sideLimit maxSide) (pixelLimit maxPixels) width height := by
  have hlimit : 0 < sideLimit maxSide := lt_max_of_lt_right Nat.zero_lt_one
  rw [← sideLengths_fit_iff hwidth hheight]
  constructor
  · intro h
    exact h.pixels.trans_eq (pixelLimit_eq maxPixels).symm
  · intro h
    refine ⟨?_, ?_, h.trans_eq (pixelLimit_eq maxPixels)⟩
    · exact (sideLength_le_limit hheight hlimit).trans_eq (max_comm maxSide 1)
    · exact (sideLength_le_limit hwidth hlimit).trans_eq (max_comm maxSide 1)

/--
A preview always respects the side limit, and the pixel limit exactly when no side is
rounded, or raised to one pixel, past a pair of lengths with few enough pixels.
-/
theorem preview_respects_iff (lib : ImageLibrary) (bytes : Bytes) (image : lib.DynamicImage)
    (width height : ℕ) (hload : loadSupportedImage lib bytes = .ok image)
    (hdimensions : lib.dimensions image = (width, height)) (maxSide maxPixels : ℕ) :
    ∃ decoded, decodeImageBytes lib bytes maxSide maxPixels = .ok decoded ∧
      (Respects decoded maxSide maxPixels ↔
        Fits (sideLimit maxSide) (pixelLimit maxPixels) width height) := by
  obtain ⟨-, hexceed⟩ := loadSupportedImage_ok hload
  rw [hdimensions] at hexceed
  obtain ⟨hwidth, hheight, -, -⟩ := saturatingMul_of_not_exceed hexceed
  obtain ⟨argb, hdecoded⟩ := decodeImageBytes_of_load hload hdimensions maxSide maxPixels
  exact ⟨_, hdecoded, respects_iff hwidth hheight⟩

def plainImages (width height : ℕ) (pixel : Rgba) : ImageLibrary where
  DynamicImage := ℕ × ℕ
  guessFormat _ := .ok .png
  loadFromMemoryWithFormat _ _ := .ok (width, height)
  exifOrientation _ := none
  dimensions image := image
  fliph image := image
  flipv image := image
  rotate90 image := (image.2, image.1)
  rotate180 image := image
  rotate270 image := (image.2, image.1)
  resizeExact _ width height := (width, height)
  toRgba8 image := List.replicate (image.1 * image.2) pixel

theorem preview_respects_eight_by_four : ∃ decoded,
    decodeImageBytes (plainImages 8 4 ⟨0x12, 0x34, 0x56, 0x78⟩) [0] 4 16 = .ok decoded ∧
      Respects decoded 4 16 := by
  obtain ⟨decoded, hdecoded, hiff⟩ :=
    preview_respects_iff (plainImages 8 4 ⟨0x12, 0x34, 0x56, 0x78⟩) [0] (8, 4) 8 4 rfl rfl 4 16
  exact ⟨decoded, hdecoded, hiff.mpr ⟨4, 2, by decide, by decide, by decide, by decide, by decide⟩⟩

/-- A photo of 12 MP becomes 2365 by 1774 pixels, 1206 more than the limit. -/
theorem photo_preview_exceeds : ∃ decoded,
    decodeImageBytes (plainImages 4000 3000 ⟨0, 0, 0, 255⟩)
      [0] 4096 maxImageOutputPixels = .ok decoded ∧
      decoded.width = 2365 ∧ decoded.height = 1774 ∧ ¬ Respects decoded 4096 maxImageOutputPixels := by
  have hload : loadSupportedImage (plainImages 4000 3000 ⟨0, 0, 0, 255⟩) [0] = .ok (4000, 3000) := rfl
  obtain ⟨argb, hdecoded⟩ := decodeImageBytes_of_load hload rfl 4096 maxImageOutputPixels
  have hwidth : sideLength (sideLimit 4096) (pixelLimit maxImageOutputPixels) 4000 3000 = 2365 :=
    sideLength_eq_succ (by decide) (by decide) (by decide)
  have hheight : sideLength (sideLimit 4096) (pixelLimit maxImageOutputPixels) 3000 4000 = 1774 :=
    sideLength_eq_succ (by decide) (by decide) (by decide)
  rw [hwidth, hheight] at hdecoded
  refine ⟨_, hdecoded, rfl, rfl, fun h => ?_⟩
  have hpixels : 2365 * 1774 ≤ max 1 (min maxImageOutputPixels maxImageOutputPixels) := h.pixels
  exact absurd hpixels (by decide)

end Mst5Client.ImagePreviews
