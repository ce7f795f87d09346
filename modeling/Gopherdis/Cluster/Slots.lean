/-
Hash slots. A key belongs to the slot of its tag, or of itself if it has none, and a slot to a node; a slot
nobody has claimed counts as one's own. A key that belongs to another node is answered with its address.
-/
import Gopherdis.Command.Execute

namespace Gopherdis.Cluster

open Lib Command List

def numSlots : Nat := 16384

/-! ## The slot of a key -/

def crc16tab : List UInt16 :=
  [
    0x0000, 0x1021, 0x2042, 0x3063, 0x4084, 0x50a5, 0x60c6, 0x70e7,
    0x8108, 0x9129, 0xa14a, 0xb16b, 0xc18c, 0xd1ad, 0xe1ce, 0xf1ef,
    0x1231, 0x0210, 0x3273, 0x2252, 0x52b5, 0x4294, 0x72f7, 0x62d6,
    0x9339, 0x8318, 0xb37b, 0xa35a, 0xd3bd, 0xc39c, 0xf3ff, 0xe3de,
    0x2462, 0x3443, 0x0420, 0x1401, 0x64e6, 0x74c7, 0x44a4, 0x5485,
    0xa56a, 0xb54b, 0x8528, 0x9509, 0xe5ee, 0xf5cf, 0xc5ac, 0xd58d,
    0x3653, 0x2672, 0x1611, 0x0630, 0x76d7, 0x66f6, 0x5695, 0x46b4,
    0xb75b, 0xa77a, 0x9719, 0x8738, 0xf7df, 0xe7fe, 0xd79d, 0xc7bc,
    0x48c4, 0x58e5, 0x6886, 0x78a7, 0x0840, 0x1861, 0x2802, 0x3823,
    0xc9cc, 0xd9ed, 0xe98e, 0xf9af, 0x8948, 0x9969, 0xa90a, 0xb92b,
    0x5af5, 0x4ad4, 0x7ab7, 0x6a96, 0x1a71, 0x0a50, 0x3a33, 0x2a12,
    0xdbfd, 0xcbdc, 0xfbbf, 0xeb9e, 0x9b79, 0x8b58, 0xbb3b, 0xab1a,
    0x6ca6, 0x7c87, 0x4ce4, 0x5cc5, 0x2c22, 0x3c03, 0x0c60, 0x1c41,
    0xedae, 0xfd8f, 0xcdec, 0xddcd, 0xad2a, 0xbd0b, 0x8d68, 0x9d49,
    0x7e97, 0x6eb6, 0x5ed5, 0x4ef4, 0x3e13, 0x2e32, 0x1e51, 0x0e70,
    0xff9f, 0xefbe, 0xdfdd, 0xcffc, 0xbf1b, 0xaf3a, 0x9f59, 0x8f78,
    0x9188, 0x81a9, 0xb1ca, 0xa1eb, 0xd10c, 0xc12d, 0xf14e, 0xe16f,
    0x1080, 0x00a1, 0x30c2, 0x20e3, 0x5004, 0x4025, 0x7046, 0x6067,
    0x83b9, 0x9398, 0xa3fb, 0xb3da, 0xc33d, 0xd31c, 0xe37f, 0xf35e,
    0x02b1, 0x1290, 0x22f3, 0x32d2, 0x4235, 0x5214, 0x6277, 0x7256,
    0xb5ea, 0xa5cb, 0x95a8, 0x8589, 0xf56e, 0xe54f, 0xd52c, 0xc50d,
    0x34e2, 0x24c3, 0x14a0, 0x0481, 0x7466, 0x6447, 0x5424, 0x4405,
    0xa7db, 0xb7fa, 0x8799, 0x97b8, 0xe75f, 0xf77e, 0xc71d, 0xd73c,
    0x26d3, 0x36f2, 0x0691, 0x16b0, 0x6657, 0x7676, 0x4615, 0x5634,
    0xd94c, 0xc96d, 0xf90e, 0xe92f, 0x99c8, 0x89e9, 0xb98a, 0xa9ab,
    0x5844, 0x4865, 0x7806, 0x6827, 0x18c0, 0x08e1, 0x3882, 0x28a3,
    0xcb7d, 0xdb5c, 0xeb3f, 0xfb1e, 0x8bf9, 0x9bd8, 0xabbb, 0xbb9a,
    0x4a75, 0x5a54, 0x6a37, 0x7a16, 0x0af1, 0x1ad0, 0x2ab3, 0x3a92,
    0xfd2e, 0xed0f, 0xdd6c, 0xcd4d, 0xbdaa, 0xad8b, 0x9de8, 0x8dc9,
    0x7c26, 0x6c07, 0x5c64, 0x4c45, 0x3ca2, 0x2c83, 0x1ce0, 0x0cc1,
    0xef1f, 0xff3e, 0xcf5d, 0xdf7c, 0xaf9b, 0xbfba, 0x8fd9, 0x9ff8,
    0x6e17, 0x7e36, 0x4e55, 0x5e74, 0x2e93, 0x3eb2, 0x0ed1, 0x1ef0]

def crc16 (data : Bytes) : UInt16 :=
  data.foldl (fun crc b => (crc <<< 8) ^^^ crc16tab.getD ((crc >>> 8).toUInt8 ^^^ b).toNat 0) 0

/-- What stands between the first brace and the next closing one; the whole key if that is nothing. -/
def extractHashTag (key : Bytes) : Bytes :=
  match key.dropWhile (· ≠ 123) with
  | [] => key
  | _ :: rest =>
    let tag := rest.takeWhile (· ≠ 125)
    if tag = [] ∨ tag.length = rest.length then key else tag

def keySlot (key : Bytes) : Fin numSlots := ⟨(crc16 (extractHashTag key)).toNat % numSlots, Nat.mod_lt _ (by decide)⟩

/-! ## The hash -/

/-- One step of `CRC-16/XMODEM`: the top bit moves out, and makes the polynomial come in if it was set. -/
def xmodemShift (c : BitVec 16) : BitVec 16 := if c.msb then (c <<< 1) ^^^ 0x1021#16 else c <<< 1

/-- `CRC-16/XMODEM`, bit by bit. -/
def xmodem (data : Bytes) : BitVec 16 :=
  data.foldl (fun c (b : UInt8) => xmodemShift^[8] (c ^^^ b.toBitVec.setWidth 16 <<< 8)) (0 : BitVec 16)

lemma xmodemShift_xor (a b : BitVec 16) : xmodemShift (a ^^^ b) = xmodemShift a ^^^ xmodemShift b := by
  simp only [xmodemShift, BitVec.msb_xor, BitVec.shiftLeft_xor_distrib]
  generalize 0x1021#16 = p
  cases a.msb <;> cases b.msb
  · rfl
  · exact BitVec.xor_assoc ..
  · exact (BitVec.xor_assoc ..).trans (by rw [BitVec.xor_comm (b <<< 1)]; exact (BitVec.xor_assoc ..).symm)
  · have hp : ∀ x y : BitVec 16, x ^^^ p ^^^ (y ^^^ p) = x ^^^ y := by
      intro x y
      ext i hi
      simp [Bool.xor_comm, Bool.xor_left_comm]
    exact (hp ..).symm

lemma crc16tab_eq : ∀ b : BitVec 8, (crc16tab.getD b.toNat 0).toBitVec = xmodemShift^[8] (b.setWidth 16 <<< 8) ∧
    xmodemShift^[8] (b.setWidth 16) = b.setWidth 16 <<< 8 := by
  decide +kernel

/-- The top byte of the register goes through the table, the other one only moves. -/
lemma crc16_toBitVec (data : Bytes) : (crc16 data).toBitVec = xmodem data := by
  refine (List.foldl_hom UInt16.toBitVec fun crc b => ?_).symm
  have hsplit : crc.toBitVec ^^^ (b.toBitVec.setWidth 16 <<< 8) =
      (((crc.toBitVec >>> 8).setWidth 8 ^^^ b.toBitVec).setWidth 16 <<< 8) ^^^
        (crc.toBitVec.setWidth 8).setWidth 16 := by
    refine BitVec.eq_of_getLsbD_eq fun i hi => ?_
    by_cases him : i < 8
    · simp [him, hi]
    · simp [him, hi, show 8 + (i - 8) = i by omega, show i - 8 < 8 by omega]
  have hmove : crc.toBitVec <<< 8 = (crc.toBitVec.setWidth 8).setWidth 16 <<< 8 := by
    refine BitVec.eq_of_getLsbD_eq fun i hi => ?_
    simp [hi, show i - 8 < 8 by omega]
    rfl
  rw [hsplit, Function.Semiconj₂.iterate xmodemShift_xor, ← (crc16tab_eq _).1, (crc16tab_eq _).2, ← hmove]
  exact BitVec.xor_comm ..

/-- What is hashed: the bytes between the first opening brace and the first closing one behind it, if there are both and
something between them. -/
def hashedPart (key : Bytes) : Bytes :=
  let behind := key.drop (key.idxOf 123 + 1)
  if 123 ∈ key ∧ 125 ∈ behind ∧ behind.idxOf 125 ≠ 0 then behind.take (behind.idxOf 125) else key

lemma takeWhile_ne (l : Bytes) (c : UInt8) : l.takeWhile (· ≠ c) = l.take (l.idxOf c) := by
  rw [takeWhile_eq_take_findIdx_not]
  simp
  rfl

lemma extractHashTag_eq (key : Bytes) : extractHashTag key = hashedPart key := by
  have hdrop : key.dropWhile (· ≠ 123) = key.drop (key.idxOf 123) := by
    rw [dropWhile_eq_drop_findIdx_not]
    simp
    rfl
  rw [extractHashTag, hdrop, hashedPart]
  by_cases hopen : 123 ∈ key
  · have hlt := idxOf_lt_length_of_mem hopen
    rw [drop_eq_getElem_cons hlt]
    simp only [takeWhile_ne]
    generalize key.drop (key.idxOf 123 + 1) = behind
    have hclose : behind.take (behind.idxOf 125) = [] ∨ (behind.take (behind.idxOf 125)).length = behind.length ↔
        ¬ (125 ∈ behind ∧ behind.idxOf 125 ≠ 0) := by
      rw [← idxOf_lt_length_iff, take_eq_nil_iff, length_take, ← length_eq_zero_iff]
      omega
    by_cases htag : 125 ∈ behind ∧ behind.idxOf 125 ≠ 0
    · rw [if_neg (not_not.2 htag ∘ hclose.1), if_pos ⟨hopen, htag⟩]
    · rw [if_pos (hclose.2 htag), if_neg fun h => htag h.2]
  · rw [idxOf_eq_length hopen, drop_length, if_neg fun h => hopen h.1]

/-- The slot of a key is `CRC-16/XMODEM` of the part of it that is hashed; so keys with the same tag share a slot. -/
theorem keySlot_eq : (∀ key, (keySlot key).val = (xmodem (hashedPart key)).toNat % 16384) ∧
    ∀ pre pre' tag rest rest' : Bytes, 123 ∉ pre → 123 ∉ pre' → 125 ∉ tag → tag ≠ [] →
      keySlot (pre ++ 123 :: (tag ++ 125 :: rest)) = keySlot (pre' ++ 123 :: (tag ++ 125 :: rest')) := by
  have hslot : ∀ key, (keySlot key).val = (xmodem (hashedPart key)).toNat % 16384 := by
    intro key
    rw [← extractHashTag_eq, ← crc16_toBitVec]
    rfl
  have htag : ∀ pre tag rest : Bytes, 123 ∉ pre → 125 ∉ tag → tag ≠ [] →
      hashedPart (pre ++ 123 :: (tag ++ 125 :: rest)) = tag := by
    intro pre tag rest hpre htag hne
    have hopen : (pre ++ 123 :: (tag ++ 125 :: rest)).idxOf 123 = pre.length := by
      simp [idxOf_append_of_notMem hpre]
    have hclose : (tag ++ 125 :: rest).idxOf 125 = tag.length := by simp [idxOf_append_of_notMem htag]
    simp [hashedPart, hopen, hclose, hne]
  refine ⟨hslot, fun pre pre' tag rest rest' hpre hpre' htag' hne => Fin.ext ?_⟩
  rw [hslot, hslot, htag pre tag rest hpre htag' hne, htag pre' tag rest' hpre' htag' hne]

/-! ## The slot map -/

/-- The nodes are known by their addresses alone. -/
structure ClusterManager where
  selfNodeID : Bytes
  selfAddr : Bytes
  slots : Fin numSlots → Bytes
  nodeAddr : Bytes → Option Bytes
  clusterEnabled : Bool

namespace ClusterManager

variable (cm : ClusterManager)

/-- Whether the slot of the key is one's own, the slot, and the address to go to. -/
def isSlotLocal (key : Bytes) : Bool × Fin numSlots × Bytes :=
  let slot := keySlot key
  if cm.clusterEnabled = false then (true, slot, cm.selfAddr)
  else if cm.slots slot = [] ∨ cm.slots slot = cm.selfNodeID then (true, slot, cm.selfAddr)
  else (false, slot, (cm.nodeAddr (cm.slots slot)).getD cm.selfAddr)

def movedReply (slot : Fin numSlots) (addr : Bytes) : Bytes :=
  ascii "-MOVED " ++ formatNat slot ++ ascii " " ++ addr ++ ascii "\r\n"

/-- The reply for a key of another node. -/
def moved (key : Bytes) : Option Bytes :=
  if cm.clusterEnabled = false then none
  else
    match cm.isSlotLocal key with
    | (true, _, _) => none
    | (false, slot, addr) => some (movedReply slot addr)

end ClusterManager

def inCluster (ctx : Context) (cm : ClusterManager) : Context := { ctx with moved := cm.moved }

end Gopherdis.Cluster
