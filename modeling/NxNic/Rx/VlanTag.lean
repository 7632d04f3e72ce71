import NxNic.Lib.Endian

/-! # The tag of a received frame

`check_8021q` takes the 802.1Q tag out of a frame in its buffer: it moves the two
addresses up over the tag, by words, and pulls the data pointer.  The words are moved
from the highest on, so that none is overwritten before it has been moved; two bytes
below the frame are moved with them.  The length of the frame is not looked at.

The state is the buffer (`SkBuff`): its memory, where the data begins and how many bytes
it has.  The function is compared with what it is for on the frame, a list of bytes:
`untagged` takes bytes 12 to 15 out of it, and `tci` is what they say.

`check8021q_frame` is the comparison.  Its hypothesis is there for the length that is
not looked at: a frame below 16 bytes whose bytes 12 and 13 look like the beginning of
a tag loses four bytes all the same.
-/
namespace NxNic
namespace Rx
open Words

/-- A socket buffer with linear data: the memory, where the data begins and how long it is.
The allocation reserves bytes below the data. -/
structure SkBuff where
  mem : Bytes
  data : Nat
  len : Nat
  headroom : 2 ≤ data

namespace SkBuff
variable (skb : SkBuff)

/-- The data of the buffer. -/
def frame : List (BitVec 8) := (List.range skb.len).map fun i => skb.mem (skb.data + i)

/-- `skb_pull`, which does nothing when there is less than that. -/
def skbPull (n : Nat) : SkBuff :=
  if skb.len < n then skb
  else
    { skb with
      data := skb.data + n, len := skb.len - n, headroom := Nat.le_add_right_of_le skb.headroom }

theorem length_frame : skb.frame.length = skb.len := by
  rw [frame, List.length_map, List.length_range]

theorem getElem?_frame (i : Nat) :
    skb.frame[i]? = if i < skb.len then some (skb.mem (skb.data + i)) else none := by
  rw [frame, List.getElem?_map]
  split
  · rw [List.getElem?_range ‹_›, Option.map_some]
  · rw [List.getElem?_eq_none (by rw [List.length_range]; omega), Option.map_none]

theorem getElem?_frame_skbPull {n : Nat} (hn : n ≤ skb.len) (i : Nat) :
    (skb.skbPull n).frame[i]? =
      if i < skb.len - n then some (skb.mem (skb.data + n + i)) else none := by
  rw [skbPull, if_neg (Nat.not_lt.mpr hn)]
  exact getElem?_frame _ i

end SkBuff

/-- `ETH_P_8021Q`. -/
def ethP8021q : BitVec 16 := 0x8100#16

/-- `VLAN_HLEN`. -/
def vlanHlen : Nat := 4

/-- `check_8021q` with `NX_VLAN_ACCEL`; the second value is `*vidp`. -/
def check8021q (e : Endian) (skb : SkBuff) (vid : Int) : SkBuff × Int :=
  let eth := skb.data
  if e.load 16 skb.mem (eth + 12) ≠ e.htons ethP8021q then (skb, vid)
  else
    let vid := (e.htons (e.load 16 skb.mem (eth + 14))).toNat
    let dst := skb.data + 14
    let src := skb.data + 10
    let m := e.store skb.mem dst (e.load 16 skb.mem src)
    let m := e.store m (dst - 4) (e.load 32 m (src - 4))
    let m := e.store m (dst - 8) (e.load 32 m (src - 8))
    let m := e.store m (dst - 12) (e.load 32 m (src - 12))
    ({ skb with mem := m }.skbPull vlanHlen, vid)

/-! ## Tagged frames -/

/-- The frame has a whole tag after its two addresses. -/
def IsTagged (f : List (BitVec 8)) : Prop :=
  16 ≤ f.length ∧ f[12]? = some 0x81#8 ∧ f[13]? = some 0x00#8

instance (f : List (BitVec 8)) : Decidable (IsTagged f) := inferInstanceAs (Decidable (_ ∧ _))

/-- The frame without its bytes 12 to 15. -/
def untagged (f : List (BitVec 8)) : List (BitVec 8) := f.take 12 ++ f.drop 16

/-- The tag control information. -/
def tci (f : List (BitVec 8)) : Nat := 256 * (f.getD 14 0).toNat + (f.getD 15 0).toNat

/-- The buffer has what looks like the beginning of a tag where a frame has it. -/
def SkBuff.TagAt (skb : SkBuff) : Prop :=
  skb.mem (skb.data + 12) = 0x81#8 ∧ skb.mem (skb.data + 13) = 0x00#8

instance (skb : SkBuff) : Decidable skb.TagAt := inferInstanceAs (Decidable (_ ∧ _))

section
variable {e : Endian} {skb : SkBuff} {vid : Int}

theorem isTagged_iff : IsTagged skb.frame ↔ 16 ≤ skb.len ∧ skb.TagAt := by
  rw [IsTagged, skb.length_frame]
  refine and_congr_right fun hlen => ?_
  rw [skb.getElem?_frame, skb.getElem?_frame, if_pos (by omega), if_pos (by omega),
    Option.some_inj, Option.some_inj]
  exact Iff.rfl

theorem load_eq_htons_iff : e.load 16 skb.mem (skb.data + 12) = e.htons ethP8021q ↔ skb.TagAt := by
  have hbytes : skb.mem (skb.data + 12) ++ skb.mem (skb.data + 13) = ethP8021q ↔ skb.TagAt := by
    have hhigh := (skb.mem (skb.data + 12)).isLt
    have hlow := (skb.mem (skb.data + 13)).isLt
    rw [SkBuff.TagAt, ← BitVec.toNat_inj, ← BitVec.toNat_inj, ← BitVec.toNat_inj,
      Endian.toNat_append]
    show 256 * _ + _ = 33024 ↔ _ = 129 ∧ _ = 0
    omega
  rw [← hbytes, ← Endian.htons_load e]
  refine ⟨fun h => ?_, fun h => ?_⟩
  · rw [h, Endian.htons_htons]
  · rw [← h, Endian.htons_htons]

/-- A buffer without a tag is left alone. -/
theorem check8021q_of_not_tagAt (h : ¬ skb.TagAt) : check8021q e skb vid = (skb, vid) :=
  if_pos (mt load_eq_htons_iff.mp h)

/-- The four moves are one, of two bytes below the frame and its addresses. -/
theorem move_words (m : Bytes) {d : Nat} (hd : 2 ≤ d) :
    move (move (move (move m (d + 14) (d + 10) 2) (d + 14 - 4) (d + 10 - 4) 4)
      (d + 14 - 8) (d + 10 - 8) 4) (d + 14 - 12) (d + 10 - 12) 4 = move m (d + 2) (d - 2) 14 := by
  obtain ⟨c, rfl⟩ : ∃ c, d = c + 2 := ⟨d - 2, (Nat.sub_add_cancel hd).symm⟩
  -- each range joins the one that was moved before it
  have h₁ : move (move m (c + 16) (c + 12) 2) (c + 12) (c + 8) 4 = move m (c + 12) (c + 8) 6 :=
    move_move (a := c + 12) (b := c + 8) (by omega)
  have h₂ : move (move m (c + 12) (c + 8) 6) (c + 8) (c + 4) 4 = move m (c + 8) (c + 4) 10 :=
    move_move (a := c + 8) (b := c + 4) (by omega)
  have h₃ : move (move m (c + 8) (c + 4) 10) (c + 4) c 4 = move m (c + 4) c 14 :=
    move_move (by omega)
  exact ((congrArg (fun m => move (move m _ _ 4) _ _ 4) h₁).trans
    (congrArg (fun m => move m _ _ 4) h₂)).trans h₃

/-- The frame is moved up and its tag read. -/
theorem check8021q_of_tagAt (h : skb.TagAt) :
    check8021q e skb vid =
      ({ skb with mem := move skb.mem (skb.data + 2) (skb.data - 2) 14 }.skbPull vlanHlen,
        ((skb.mem (skb.data + 14) ++ skb.mem (skb.data + 15)).toNat : Int)) := by
  rw [check8021q, if_neg (not_not.mpr (load_eq_htons_iff.mpr h))]
  simp only [Endian.store_load (w := 16) (by decide), Endian.store_load (w := 32) (by decide),
    Endian.htons_load]
  rw [← move_words skb.mem skb.headroom]

theorem frame_moved (hlen : 16 ≤ skb.len) :
    ({ skb with mem := move skb.mem (skb.data + 2) (skb.data - 2) 14 }.skbPull vlanHlen).frame =
      untagged skb.frame := by
  have hroom := skb.headroom
  have hpull : ∀ i, ({ skb with
      mem := move skb.mem (skb.data + 2) (skb.data - 2) 14 }.skbPull vlanHlen).frame[i]? =
        if i < skb.len - 4 then some (move skb.mem (skb.data + 2) (skb.data - 2) 14
          (skb.data + 4 + i)) else none :=
    SkBuff.getElem?_frame_skbPull _ (Nat.le_trans (by decide) hlen)
  refine List.ext_getElem? fun i => ?_
  rw [hpull, untagged, List.getElem?_append, List.length_take, skb.length_frame,
    Nat.min_eq_left (by omega), List.getElem?_drop, SkBuff.getElem?_frame, move]
  by_cases hi : i < 12
  · have hsrc : skb.data - 2 + (skb.data + 4 + i - (skb.data + 2)) = skb.data + i := by omega
    rw [if_pos hi, List.getElem?_take_of_lt hi, SkBuff.getElem?_frame, if_pos (by omega),
      if_pos (by omega), copy_of_mem (by omega) (by omega), hsrc]
  · rw [if_neg hi, copy_of_not_mem (by omega)]
    refine if_ctx_congr (by omega) (fun _ => ?_) fun _ => rfl
    congr 2
    omega

/-- `check_8021q` takes a whole tag out of a frame, gives its control information and leaves
other frames alone, unless the buffer of a frame that is too short for a tag has what looks
like one.  The order of the bytes on the host, the frame and the memory around it are
arbitrary. -/
theorem check8021q_frame (e : Endian) (skb : SkBuff) (vid : Int) (h : skb.TagAt → 16 ≤ skb.len) :
    ((check8021q e skb vid).1.frame, (check8021q e skb vid).2) =
      if IsTagged skb.frame then (untagged skb.frame, (tci skb.frame : Int))
      else (skb.frame, vid) := by
  by_cases htag : skb.TagAt
  · have hlen : 16 ≤ skb.len := h htag
    rw [if_pos (isTagged_iff.mpr ⟨hlen, htag⟩), check8021q_of_tagAt htag, frame_moved hlen,
      Endian.toNat_append, tci, List.getD_eq_getElem?_getD, List.getD_eq_getElem?_getD,
      SkBuff.getElem?_frame, SkBuff.getElem?_frame, if_pos (by omega), if_pos (by omega),
      Option.getD_some, Option.getD_some]
  · rw [if_neg (mt isTagged_iff.mp fun hn => htag hn.2), check8021q_of_not_tagAt htag]

/-- A frame of 18 bytes with a tag. -/
def taggedSkb : SkBuff where
  mem k := if k = 28 then 0x81#8 else if k = 29 then 0x00#8 else BitVec.ofNat 8 k
  data := 16
  len := 18
  headroom := by decide

theorem check8021q_frame_tagged : taggedSkb.TagAt ∧ 16 ≤ taggedSkb.len ∧
    ((check8021q .little taggedSkb (-1)).1.frame, (check8021q .little taggedSkb (-1)).2) =
      if IsTagged taggedSkb.frame then (untagged taggedSkb.frame, (tci taggedSkb.frame : Int))
      else (taggedSkb.frame, -1) :=
  ⟨by decide, by decide, check8021q_frame .little taggedSkb (-1) fun _ => by decide⟩

/-- A frame of 14 bytes, its two addresses and the type of a tag. -/
def shortSkb : SkBuff where
  mem k := if k = 28 then 0x81#8 else 0#8
  data := 16
  len := 14
  headroom := by decide

/-- It loses four bytes: no other frame is left alone. -/
theorem short_frame_changed : ¬ ∀ (e : Endian) (skb : SkBuff) (vid : Int),
    ((check8021q e skb vid).1.frame, (check8021q e skb vid).2) =
      if IsTagged skb.frame then (untagged skb.frame, (tci skb.frame : Int))
      else (skb.frame, vid) := by
  intro h
  have hshort := congrArg (fun r => r.1.length) (h .little shortSkb (-1))
  revert hshort
  decide

end

/-! ## Tags put in by the sender -/

/-- The frame with a tag after its two addresses. -/
def tagged (t : BitVec 16) (f : List (BitVec 8)) : List (BitVec 8) :=
  f.take 12 ++ ([0x81#8, 0x00#8, byte t 1, byte t 0] ++ f.drop 12)

section
variable {t : BitVec 16} {f : List (BitVec 8)}

theorem getElem?_tagged (hf : 12 ≤ f.length) {i : Nat} (hi : i < 4) :
    (tagged t f)[12 + i]? = [0x81#8, 0x00#8, byte t 1, byte t 0][i]? := by
  have htake : (f.take 12).length = 12 := by rw [List.length_take, Nat.min_eq_left hf]
  rw [tagged, List.getElem?_append_right (by omega), htake, Nat.add_sub_cancel_left,
    List.getElem?_append_left hi]

theorem isTagged_tagged (hf : 12 ≤ f.length) : IsTagged (tagged t f) := by
  refine ⟨?_, getElem?_tagged hf (i := 0) (by decide), getElem?_tagged hf (i := 1) (by decide)⟩
  rw [tagged, List.length_append, List.length_append, List.length_take, List.length_drop,
    Nat.min_eq_left hf]
  show 16 ≤ 12 + (4 + (f.length - 12))
  omega

theorem untagged_tagged (hf : 12 ≤ f.length) : untagged (tagged t f) = f := by
  have htake : (f.take 12).length = 12 := by rw [List.length_take, Nat.min_eq_left hf]
  have hlow : (tagged t f).take 12 = f.take 12 := by
    rw [tagged, List.take_append_of_le_length (Nat.le_of_eq htake.symm), List.take_take]
    rfl
  have hhigh : (tagged t f).drop 16 = f.drop 12 := by
    rw [tagged, List.drop_append, htake, List.drop_eq_nil_of_le (by omega)]
    rfl
  rw [untagged, hlow, hhigh, List.take_append_drop]

theorem tci_tagged (hf : 12 ≤ f.length) : tci (tagged t f) = t.toNat := by
  have hhigh : (tagged t f)[14]? = some (byte t 1) := getElem?_tagged hf (i := 2) (by decide)
  have hlow : (tagged t f)[15]? = some (byte t 0) := getElem?_tagged hf (i := 3) (by decide)
  have ht : byte t 1 ++ byte t 0 = t := by
    refine ext fun i hi => ?_
    rw [Endian.byte_append _ _ (by omega)]
    obtain rfl | rfl : i = 0 ∨ i = 1 := by omega
    · rfl
    · rfl
  rw [tci, List.getD_eq_getElem?_getD, List.getD_eq_getElem?_getD, hhigh, hlow, Option.getD_some,
    Option.getD_some, ← Endian.toNat_append, ht]

/-- **A tag that was put in** is taken out again, and its control information given. -/
theorem check8021q_tagged {e : Endian} {skb : SkBuff} {vid : Int} (hf : 12 ≤ f.length)
    (hskb : skb.frame = tagged t f) :
    ((check8021q e skb vid).1.frame, (check8021q e skb vid).2) = (f, (t.toNat : Int)) := by
  have htag : IsTagged skb.frame := hskb ▸ isTagged_tagged hf
  rw [check8021q_frame e skb vid fun _ => (isTagged_iff.mp htag).1, if_pos htag, hskb,
    untagged_tagged hf, tci_tagged hf]

end
end Rx
end NxNic
