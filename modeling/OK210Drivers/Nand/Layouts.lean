import Mathlib.Data.List.GetD
import Mathlib.Data.List.Range

/-!
# The ECC layouts of the NAND driver

The `s3c_nand_oob_*` tables of `s3c_nand.c`: where the ECC bytes of a page stand in its OOB area.
-/

namespace OK210Drivers.Nand

/-- `struct nand_ecclayout`, without the free regions, which the page functions do not use. -/
structure Layout where
  eccbytes : Nat
  eccpos : List Nat

-- Entries of the C array that the initialiser does not mention are 0.
def Layout.pos (l : Layout) (i : Nat) : Nat := l.eccpos.getD i 0

def s3c_nand_oob_16 : Layout where
  eccbytes := 4
  eccpos := [1, 2, 3, 4]

def s3c_nand_oob_64 : Layout where
  eccbytes := 16
  eccpos := [40, 41, 42, 43, 44, 45, 46, 47,
             48, 49, 50, 51, 52, 53, 54, 55]

def s3c_nand_oob_mlc_64 : Layout where
  eccbytes := 32
  eccpos := [
    32, 33, 34, 35, 36, 37, 38, 39,
    40, 41, 42, 43, 44, 45, 46, 47,
    48, 49, 50, 51, 52, 53, 54, 55,
    56, 57, 58, 59, 60, 61, 62, 63]

def s3c_nand_oob_mlc_128_4bit : Layout where
  eccbytes := 64
  eccpos := [
    64, 65, 66, 67, 68, 69, 70, 71, 72, 73,
    74, 75, 76, 77, 78, 79, 80, 81, 82, 83,
    84, 85, 86, 87, 88, 89, 90, 91, 92, 93,
    94, 95, 96, 97, 98, 99, 100, 101, 102, 103,
    104, 105, 106, 107, 108, 109, 110, 111, 112, 113,
    114, 115, 116, 117, 118, 119, 120, 121, 122, 123,
    124, 125, 126, 127]

def s3c_nand_oob_mlc_128_8bit : Layout where
  eccbytes := 104
  eccpos := [
    24, 25, 26, 27, 28, 29, 30, 31, 32, 33,
    34, 35, 36, 37, 38, 39, 40, 41, 42, 43,
    44, 45, 46, 47, 48, 49, 50, 51, 52, 53,
    54, 55, 56, 57, 58, 59, 60, 61, 62, 63,
    64, 65, 66, 67, 68, 69, 70, 71, 72, 73,
    74, 75, 76, 77, 78, 79, 80, 81, 82, 83,
    84, 85, 86, 87, 88, 89, 90, 91, 92, 93,
    94, 95, 96, 97, 98, 99, 100, 101, 102, 103,
    104, 105, 106, 107, 108, 109, 110, 111, 112, 113,
    114, 115, 116, 117, 118, 119, 120, 121, 122, 123,
    124, 125, 126, 127]

def s3c_nand_oob_mlc_232_8bit : Layout where
  eccbytes := 208
  eccpos := [
    24, 25, 26, 27, 28, 29, 30, 31, 32, 33,
    34, 35, 36, 37, 38, 39, 40, 41, 42, 43,
    44, 45, 46, 47, 48, 49, 50, 51, 52, 53,
    54, 55, 56, 57, 58, 59, 60, 61, 62, 63,
    64, 65, 66, 67, 68, 69, 70, 71, 72, 73,
    74, 75, 76, 77, 78, 79, 80, 81, 82, 83,
    84, 85, 86, 87, 88, 89, 90, 91, 92, 93,
    94, 95, 96, 97, 98, 99, 100, 101, 102, 103,
    104, 105, 106, 107, 108, 109, 110, 111, 112, 113,
    114, 115, 116, 117, 118, 119, 120, 121, 122, 123,
    124, 125, 126, 127,
    128, 129, 130, 131, 132, 133, 134, 135, 136, 137,
    138, 139, 140, 141, 142, 143, 144, 145, 146, 147,
    148, 149, 150, 151, 152, 153, 154, 155, 156, 157,
    158, 159, 160, 161, 162, 163, 164, 165, 166, 167,
    168, 169, 170, 171, 172, 173, 174, 175, 176, 177,
    178, 179, 180, 181, 182, 183, 184, 185, 186, 187,
    188, 189, 190, 191, 192, 193, 194, 195, 196, 197,
    198, 199, 200, 201, 202, 203, 204, 205, 206, 207,
    208, 209, 210, 211, 212, 213, 214, 215, 216, 217,
    218, 219, 220, 221, 222, 223, 224, 225, 226, 227,
    228, 229, 230, 231]

/-- The layouts of the file, by the format they are made for. -/
def layouts_1bit : List Layout := [s3c_nand_oob_16, s3c_nand_oob_64]
def layouts_4bit : List Layout := [s3c_nand_oob_mlc_64, s3c_nand_oob_mlc_128_4bit]
def layouts_8bit : List Layout := [s3c_nand_oob_mlc_128_8bit, s3c_nand_oob_mlc_232_8bit]

/-- The positions are one run of `eccbytes` offsets. -/
def Layout.Contiguous (l : Layout) : Prop := l.eccpos = List.range' (l.pos 0) l.eccbytes

instance (l : Layout) : Decidable l.Contiguous := inferInstanceAs (Decidable (_ = _))

/-- Every layout of the file is contiguous, which the page readers rely on. -/
theorem contiguous_of_mem {l : Layout} (h : l ∈ layouts_1bit ++ layouts_4bit ++ layouts_8bit) :
    l.Contiguous := by
  have hall : ∀ l ∈ layouts_1bit ++ layouts_4bit ++ layouts_8bit, l.Contiguous := by decide +kernel
  exact hall l h

theorem eccbytes_pos_of_mem {l : Layout} (h : l ∈ layouts_1bit ++ layouts_4bit ++ layouts_8bit) :
    0 < l.eccbytes := by
  have hall : ∀ l ∈ layouts_1bit ++ layouts_4bit ++ layouts_8bit, 0 < l.eccbytes := by decide
  exact hall l h

theorem Layout.Contiguous.pos_eq {l : Layout} (h : l.Contiguous) {i : Nat} (hi : i < l.eccbytes) :
    l.pos i = l.pos 0 + i := by
  have hlen : i < (List.range' (l.pos 0) l.eccbytes).length := by rwa [List.length_range']
  rw [Layout.pos, h, List.getD_eq_getElem _ _ hlen, List.getElem_range', Nat.one_mul]

end OK210Drivers.Nand
