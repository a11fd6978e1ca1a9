import IceBridge.Gateway.NetMessage

/-! The substitution tables of the two sides. The server generates its table by arithmetic on
polynomials and swaps entries by their positions, the client starts from the inverse list and
swaps entries by their values. -/

namespace IceBridge.Gateway

abbrev Table := UInt8 → UInt8

namespace Table

def swapEntries (box : Table) (i j : UInt8) : Table :=
  Function.update (Function.update box i (box j)) j (box i)

end Table

/-! ## AESSBox -/

namespace AESSBox

def seekat (n : ℕ) (temp : UInt8) : ℕ := temp.toNat >>> n &&& 1

def seekat7 := seekat 7
def seekat6 := seekat 6
def seekat5 := seekat 5
def seekat4 := seekat 4
def seekat3 := seekat 3
def seekat2 := seekat 2
def seekat1 := seekat 1
def seekat0 := seekat 0

def add (b n : ℕ) : ℕ := if b = 0 then 0 else n

def length (temp : UInt16) : ℕ := if temp.toNat = 0 then 0 else Nat.log2 temp.toNat + 1

def modLoop (mx : UInt16) : (fuel : ℕ) → UInt16 → Option UInt8
  | 0, _ => none
  | fuel + 1, temp =>
    if temp.toNat < 256 then some temp.toUInt8
    else modLoop mx fuel (temp ^^^ (mx <<< (length temp - 9).toUInt16))

/-- Sixteen digits leave room for eight subtractions. -/
def mod (temp mx : UInt16) : Option UInt8 := modLoop mx 9 temp

def mul (temp : UInt8) : UInt16 :=
  (add (seekat7 temp) 0x4000 + add (seekat6 temp) 0x1000 + add (seekat5 temp) 0x0400
    + add (seekat4 temp) 0x0100 + add (seekat3 temp) 0x0040 + add (seekat2 temp) 0x0010
    + add (seekat1 temp) 0x0004 + add (seekat0 temp) 0x0001).toUInt16

def multwo (temp1 temp2 : UInt8) : UInt16 :=
  let a7 := seekat7 temp1; let b7 := seekat7 temp2
  let a6 := seekat6 temp1; let b6 := seekat6 temp2
  let a5 := seekat5 temp1; let b5 := seekat5 temp2
  let a4 := seekat4 temp1; let b4 := seekat4 temp2
  let a3 := seekat3 temp1; let b3 := seekat3 temp2
  let a2 := seekat2 temp1; let b2 := seekat2 temp2
  let a1 := seekat1 temp1; let b1 := seekat1 temp2
  let a0 := seekat0 temp1; let b0 := seekat0 temp2
  (add (a7 * b7) 0x4000
    + add ((a7 * b6) ^^^ (a6 * b7)) 0x2000
    + add ((a7 * b5) ^^^ (a6 * b6) ^^^ (a5 * b7)) 0x1000
    + add ((a7 * b4) ^^^ (a6 * b5) ^^^ (a5 * b6) ^^^ (a4 * b7)) 0x0800
    + add ((a7 * b3) ^^^ (a6 * b4) ^^^ (a5 * b5) ^^^ (a4 * b6) ^^^ (a3 * b7)) 0x0400
    + add ((a7 * b2) ^^^ (a6 * b3) ^^^ (a5 * b4) ^^^ (a4 * b5) ^^^ (a3 * b6) ^^^ (a2 * b7)) 0x0200
    + add ((a7 * b1) ^^^ (a6 * b2) ^^^ (a5 * b3) ^^^ (a4 * b4) ^^^ (a3 * b5) ^^^ (a2 * b6)
        ^^^ (a1 * b7)) 0x0100
    + add ((a7 * b0) ^^^ (a6 * b1) ^^^ (a5 * b2) ^^^ (a4 * b3) ^^^ (a3 * b4) ^^^ (a2 * b5)
        ^^^ (a1 * b6) ^^^ (a0 * b7)) 0x0080
    + add ((a6 * b0) ^^^ (a5 * b1) ^^^ (a4 * b2) ^^^ (a3 * b3) ^^^ (a2 * b4) ^^^ (a1 * b5)
        ^^^ (a0 * b6)) 0x0040
    + add ((a5 * b0) ^^^ (a4 * b1) ^^^ (a3 * b2) ^^^ (a2 * b3) ^^^ (a1 * b4) ^^^ (a0 * b5)) 0x0020
    + add ((a4 * b0) ^^^ (a3 * b1) ^^^ (a2 * b2) ^^^ (a1 * b3) ^^^ (a0 * b4)) 0x0010
    + add ((a3 * b0) ^^^ (a2 * b1) ^^^ (a1 * b2) ^^^ (a0 * b3)) 0x0008
    + add ((a2 * b0) ^^^ (a1 * b1) ^^^ (a0 * b2)) 0x0004
    + add ((a1 * b0) ^^^ (a0 * b1)) 0x0002
    + add (a0 * b0) 0x0001).toUInt16

def matrix (temp : UInt8) : UInt8 :=
  let b0 := seekat0 temp; let b1 := seekat1 temp; let b2 := seekat2 temp; let b3 := seekat3 temp
  let b4 := seekat4 temp; let b5 := seekat5 temp; let b6 := seekat6 temp; let b7 := seekat7 temp
  (add (b0 ^^^ b4 ^^^ b5 ^^^ b6 ^^^ b7 ^^^ 1) 1
    + add (b0 ^^^ b1 ^^^ b5 ^^^ b6 ^^^ b7 ^^^ 1) 2
    + add (b0 ^^^ b1 ^^^ b2 ^^^ b6 ^^^ b7) 4
    + add (b0 ^^^ b1 ^^^ b2 ^^^ b3 ^^^ b7) 8
    + add (b0 ^^^ b1 ^^^ b2 ^^^ b3 ^^^ b4) 16
    + add (b1 ^^^ b2 ^^^ b3 ^^^ b4 ^^^ b5 ^^^ 1) 32
    + add (b2 ^^^ b3 ^^^ b4 ^^^ b5 ^^^ b6 ^^^ 1) 64
    + add (b3 ^^^ b4 ^^^ b5 ^^^ b6 ^^^ b7) 128).toUInt8

def powerLoop (mx : UInt16) : (n : ℕ) → (value myout : UInt8) → Option UInt8
  | 0, _, myout => some myout
  | n + 1, value, myout => do
    let value ← mod (mul value) mx
    let myout ← mod (multwo myout value) mx
    powerLoop mx n value myout

def entry (mx : UInt16) (valuecount : UInt8) : Option UInt8 :=
  (powerLoop mx 7 valuecount 1).map matrix

/-- `generateBox`, which fills `global_aesbox[0]`: nothing is ever put into `marked`, so it goes
through all of the table. -/
def generateBox (mx : UInt16) : Option Table :=
  ((List.range 256).mapM fun valuecount => entry mx valuecount.toUInt8).map
    fun box value => box.getD value.toNat 0

def exchange (pBox : Table) : List UInt8 → Table
  | randomIndex1 :: randomIndex2 :: pRandoms =>
    exchange (pBox.swapEntries randomIndex1 randomIndex2) pRandoms
  | _ => pBox

def formNewBoxes (globalBox : Table) (pRandoms : List UInt8) : Option Table :=
  if pRandoms.length < exchangeTimes * 2 then none
  else some (exchange globalBox (pRandoms.take (exchangeTimes * 2)))

end AESSBox

namespace TeaAlgorithm

def encrypt (input : List UInt8) (box : Table) : List UInt8 := input.map box

def decrypt (input : List UInt8) (box : Table) : List UInt8 := input.map box

end TeaAlgorithm

/-! ## The client's table -/

namespace EncryptionBox

def stableList : List UInt8 := [
  3, 59, 133, 189, 98, 90, 228, 220, 31, 39, 153, 161, 126, 70, 248, 192,
  193, 249, 71, 127, 160, 152, 38, 30, 221, 229, 91, 99, 188, 132, 58, 2,
  42, 18, 172, 148, 75, 115, 205, 245, 54, 14, 176, 136, 87, 111, 209, 233,
  232, 208, 110, 86, 137, 177, 15, 55, 244, 204, 114, 74, 149, 173, 19, 43,
  151, 175, 17, 41, 246, 206, 112, 72, 139, 179, 13, 53, 234, 210, 108, 84,
  85, 109, 211, 235, 52, 12, 178, 138, 73, 113, 207, 247, 40, 16, 174, 150,
  190, 134, 56, 0, 223, 231, 89, 97, 162, 154, 36, 28, 195, 251, 69, 125,
  124, 68, 250, 194, 29, 37, 155, 163, 96, 88, 230, 222, 1, 57, 135, 191,
  64, 120, 198, 254, 33, 25, 167, 159, 92, 100, 218, 226, 61, 5, 187, 131,
  130, 186, 4, 60, 227, 219, 101, 93, 158, 166, 24, 32, 255, 199, 121, 65,
  105, 81, 239, 215, 8, 48, 142, 182, 117, 77, 243, 203, 20, 44, 146, 170,
  171, 147, 45, 21, 202, 242, 76, 116, 183, 143, 49, 9, 214, 238, 80, 104,
  212, 236, 82, 106, 181, 141, 51, 11, 200, 240, 78, 118, 169, 145, 47, 23,
  22, 46, 144, 168, 119, 79, 241, 201, 10, 50, 140, 180, 107, 83, 237, 213,
  253, 197, 123, 67, 156, 164, 26, 34, 225, 217, 103, 95, 128, 184, 6, 62,
  63, 7, 185, 129, 94, 102, 216, 224, 35, 27, 165, 157, 66, 122, 196, 252]

def stable : Table := fun i => stableList.getD i.toNat 0

/-- The last index of an entry with this value, 0 if there is none. -/
def indexOf (table : Table) (value : UInt8) : UInt8 :=
  (List.range 256).foldl (fun index i => if value = table i.toUInt8 then i.toUInt8 else index) 0

def switchSbox (table : Table) (s t : UInt8) : Table :=
  if s = t then table else table.swapEntries (indexOf table s) (indexOf table t)

def interchange (table : Table) : List UInt8 → Table
  | s :: t :: interChanges => interchange (switchSbox table s t) interChanges
  | _ => table

def swithTable (table : Table) (interChanges : List UInt8) : Table :=
  if interChanges.length ≠ 128 then table else interchange table interChanges

def edcrpt (table : Table) (buff : List UInt8) : List UInt8 := buff.map table

end EncryptionBox

end IceBridge.Gateway
