import Mathlib.Data.List.TakeWhile
import VirtualSoC.Debug.GdbPackets
import VirtualSoC.Lib.Bits
import VirtualSoC.Platform.RamFrame

/-!
# Round trips of the debugger's transfers
-/

namespace VirtualSoC

namespace GDBServer

/-! ### Bytes in hexadecimal -/

theorem hexDigit_digitChar : ∀ d < 16, Stoul.hexDigit (Nat.digitChar d) = some d := by decide

theorem setw2_of_lt {n : ℕ} (h : n < 256) :
    setw2 n = [Nat.digitChar (n / 16), Nat.digitChar (n % 16)] := by
  unfold setw2
  by_cases h16 : n < 16
  · rw [Nat.toDigits_of_lt_base h16, Nat.div_eq_of_lt h16, Nat.mod_eq_of_lt h16]
    rfl
  · rw [Nat.toDigits_of_base_le (by decide) (Nat.le_of_not_lt h16),
      Nat.toDigits_of_lt_base (by omega)]
    rfl

theorem length_setw2 {n : ℕ} (h : n < 256) : (setw2 n).length = 2 := by
  rw [setw2_of_lt h]
  rfl

theorem stoul16_setw2 {n : ℕ} (h : n < 256) :
    Stoul.stoul16 (setw2 n) = some (BitVec.ofNat 64 n) := by
  rw [setw2_of_lt h, Stoul.stoul16_pair (hexDigit_digitChar _ (by omega))
    (hexDigit_digitChar _ (by omega)) (by omega), Nat.div_add_mod]

/-- The text of some bytes. -/
def hexText (bytes : List Byte) : List Char := bytes.flatMap fun byte => setw2 byte.toNat

/-! ### Registers -/

theorem toNat_and_byte (v : Word) : (v &&& 0xFF).toNat < 256 := by
  rw [BitVec.toNat_and]
  exact Nat.lt_of_le_of_lt Nat.and_le_right (by decide)

@[simp] theorem length_toHex32Le (val : Word) : (toHex32Le val).length = 8 := by
  simp only [toHex32Le, List.length_append, length_setw2 (toNat_and_byte _)]

theorem hexByte_setw2 {pre post : List Char} {pos n : ℕ} (h : n < 256) (hpos : pre.length = pos) :
    hexByte (pre ++ (setw2 n ++ post)) pos = some (BitVec.ofNat 32 n) := by
  subst hpos
  have hsub : substr (pre ++ (setw2 n ++ post)) pre.length 2 = some (setw2 n) := by
    rw [substr, if_neg (by simp), List.drop_left, ← length_setw2 h, List.take_left]
  rw [hexByte, hsub, Option.bind_eq_bind, Option.bind_some, stoul16_setw2 h]
  exact congrArg some (BitVec.setWidth_ofNat_of_le (by decide) n)

theorem getLsbD_byte (v : Word) (s i : ℕ) :
    ((v >>> s) &&& 0xFF).getLsbD i = (decide (i < 8) && v.getLsbD (s + i)) := by
  rw [show (0xFF : Word) = (BitVec.allOnes 8).setWidth 32 by decide, Bits.ushiftRight_and_ones,
    BitVec.getLsbD_setWidth, BitVec.getLsbD_extractLsb']
  by_cases h : i < 8
  · rw [decide_eq_true (show i < 32 by omega), Bool.true_and]
  · rw [decide_eq_false h, Bool.false_and, Bool.and_false]

theorem or_bytes (v : Word) :
    ((v >>> 0) &&& (0xFF : Word)) ||| ((v >>> 8) &&& 0xFF) <<< 8 |||
      ((v >>> 16) &&& 0xFF) <<< 16 ||| ((v >>> 24) &&& 0xFF) <<< 24 = v := by
  apply BitVec.eq_of_getLsbD_eq
  intro i hi
  rw [BitVec.getLsbD_or, BitVec.getLsbD_or, BitVec.getLsbD_or, BitVec.getLsbD_shiftLeft,
    BitVec.getLsbD_shiftLeft, BitVec.getLsbD_shiftLeft, getLsbD_byte, getLsbD_byte, getLsbD_byte,
    getLsbD_byte, decide_eq_true hi]
  -- bit `i` lies in one of the four bytes
  rcases Nat.lt_or_ge i 8 with h8 | h8
  · simp [h8, show i < 16 by omega, show i < 24 by omega]
  rcases Nat.lt_or_ge i 16 with h16 | h16
  · simp [h16, show i < 24 by omega, show ¬ i < 8 by omega, show i - 8 < 8 by omega,
      show 8 + (i - 8) = i by omega]
  rcases Nat.lt_or_ge i 24 with h24 | h24
  · simp [h24, show ¬ i < 16 by omega, show ¬ i < 8 by omega, show ¬ i - 8 < 8 by omega,
      show i - 16 < 8 by omega, show 16 + (i - 16) = i by omega]
  · simp [show ¬ i < 24 by omega, show ¬ i < 16 by omega, show ¬ i < 8 by omega,
      show ¬ i - 8 < 8 by omega, show ¬ i - 16 < 8 by omega, show i - 24 < 8 by omega,
      show 24 + (i - 24) = i by omega]

/-- A word that stands anywhere in a text is read back. -/
theorem fromHex32Le_toHex32Le (pre post : List Char) (val : Word) :
    fromHex32Le (pre ++ (toHex32Le val ++ post)) pre.length = some val := by
  let b (s : ℕ) : List Char := setw2 ((val >>> s) &&& 0xFF).toNat
  have hlen (s : ℕ) : (b s).length = 2 := length_setw2 (toNat_and_byte (val >>> s))
  -- the byte that is shifted by `s` stands after the text `p`
  have hbyte {p q : List Char} {k s : ℕ} (hk : p.length = pre.length + k * 2)
      (htext : pre ++ (toHex32Le val ++ post) = p ++ (b s ++ q)) :
      hexByte (pre ++ (toHex32Le val ++ post)) (pre.length + k * 2) =
        some ((val >>> s) &&& 0xFF) := by
    rw [htext, hexByte_setw2 (toNat_and_byte (val >>> s)) hk, BitVec.ofNat_toNat,
      BitVec.setWidth_eq]
  have h0 := hbyte (p := pre) (q := b 8 ++ b 16 ++ b 24 ++ post) (k := 0) (s := 0) rfl
    (by simp only [toHex32Le, List.append_assoc, b])
  have h1 := hbyte (p := pre ++ b 0) (q := b 16 ++ b 24 ++ post) (k := 1) (s := 8)
    (by rw [List.length_append, hlen]) (by simp only [toHex32Le, List.append_assoc, b])
  have h2 := hbyte (p := pre ++ b 0 ++ b 8) (q := b 24 ++ post) (k := 2) (s := 16)
    (by rw [List.length_append, List.length_append, hlen, hlen])
    (by simp only [toHex32Le, List.append_assoc, b])
  have h3 := hbyte (p := pre ++ b 0 ++ b 8 ++ b 16) (q := post) (k := 3) (s := 24)
    (by rw [List.length_append, List.length_append, List.length_append, hlen, hlen, hlen])
    (by simp only [toHex32Le, List.append_assoc, b])
  rw [fromHex32Le, h0, h1, h2, h3]
  exact congrArg some (or_bytes val)

/-- The text of all registers and the pc. -/
def regsText (regs : BitVec 5 → Word) (pc : Word) : List Char :=
  (List.range 32).flatMap (fun i => toHex32Le (regs (BitVec.ofNat 5 i))) ++ toHex32Le pc

theorem length_flatMap_toHex32Le (f : ℕ → Word) (n : ℕ) :
    ((List.range n).flatMap fun i => toHex32Le (f i)).length = n * 8 := by
  induction n with
  | zero => rfl
  | succ n ih =>
    rw [List.range_succ, List.flatMap_append, List.length_append, ih, List.flatMap_singleton,
      length_toHex32Le, Nat.succ_mul]

theorem length_regsText (regs : BitVec 5 → Word) (pc : Word) :
    (regsText regs pc).length = 33 * 8 := by
  rw [regsText, List.length_append, length_flatMap_toHex32Le fun i => regs (BitVec.ofNat 5 i),
    length_toHex32Le]

theorem fromHex32Le_regsText (regs : BitVec 5 → Word) (pc : Word) {i : ℕ} (hi : i < 32) :
    fromHex32Le (regsText regs pc) (i * 8) = some (regs (BitVec.ofNat 5 i)) := by
  have hsplit : List.range 32 = List.range i ++ i :: (List.range 32).drop (i + 1) := by
    have htake := (List.take_append_drop i (List.range 32)).symm
    rwa [List.take_range, Nat.min_eq_left hi.le,
      List.drop_eq_getElem_cons (by rwa [List.length_range]), List.getElem_range] at htake
  rw [regsText, hsplit, List.flatMap_append, List.flatMap_cons, List.append_assoc,
    List.append_assoc, ← length_flatMap_toHex32Le fun i => regs (BitVec.ofNat 5 i)]
  exact fromHex32Le_toHex32Le ..

theorem fromHex32Le_regsText_pc (regs : BitVec 5 → Word) (pc : Word) :
    fromHex32Le (regsText regs pc) (32 * 8) = some pc := by
  have h := fromHex32Le_toHex32Le
    ((List.range 32).flatMap fun i => toHex32Le (regs (BitVec.ofNat 5 i))) [] pc
  rwa [List.append_nil, length_flatMap_toHex32Le fun i => regs (BitVec.ofNat 5 i)] at h

section

variable {data : List Char} {v : BitVec 5 → Word}

/-- The first rounds of the loop write the first registers. -/
theorem writeRegs_rounds (h : ∀ i < 32, fromHex32Le data (i * 8) = some (v (BitVec.ofNat 5 i)))
    (regs : BitVec 5 → Word) {n : ℕ} (hn : n ≤ 32) :
    (List.range n).foldlM (fun regs i => (fromHex32Le data (i * 8)).map fun v =>
        Function.update regs (BitVec.ofNat 5 i) v) regs =
      some fun r => if r.toNat < n then v r else regs r := by
  induction n with
  | zero =>
    refine congrArg some (funext fun r => ?_)
    rw [if_neg (Nat.not_lt_zero _)]
  | succ n ih =>
    rw [List.range_succ, List.foldlM_append, ih (by omega)]
    simp only [Option.bind_eq_bind, Option.bind_some, List.foldlM_cons, List.foldlM_nil,
      h n (by omega), Option.map_some]
    refine congrArg some (funext fun r => ?_)
    have hr := r.isLt
    by_cases hrn : r = BitVec.ofNat 5 n
    · have hval : r.toNat = n := by
        rw [hrn, BitVec.toNat_ofNat]
        omega
      rw [hrn, Function.update_self, ← hrn, if_pos (by omega)]
    · have hval : r.toNat ≠ n := by
        rintro rfl
        exact hrn (by rw [BitVec.ofNat_toNat, BitVec.setWidth_eq])
      rw [Function.update_of_ne hrn]
      exact if_congr (by omega) rfl rfl

/-- A full `G` packet writes all registers but `x0`, and the pc. -/
theorem handleWriteRegs_full {β : Type} {pc : Word} (hlen : 33 * 8 ≤ data.length)
    (h : ∀ i < 32, fromHex32Le data (i * 8) = some (v (BitVec.ofNat 5 i)))
    (hpc : fromHex32Le data (32 * 8) = some pc) (iss : ISS β) :
    handleWriteRegs data iss =
      some ("OK", { iss with state := { iss.state with regs := Function.update v 0 0, pc } }) := by
  have hrounds : ((List.range 32).takeWhile fun i => i * 8 + 8 ≤ data.length) = List.range 32 := by
    refine List.takeWhile_eq_self_iff.2 fun i hi => ?_
    have hlt := List.mem_range.1 hi
    exact decide_eq_true (by omega)
  have hregs : writeRegs data iss.state.regs = some v := by
    rw [writeRegs, hrounds, writeRegs_rounds h _ le_rfl]
    exact congrArg some (funext fun r => if_pos r.isLt)
  rw [handleWriteRegs, hregs]
  exact (if_pos hlen).trans (by rw [hpc]; rfl)

end

/-! ### Memory -/

/-- The bytes of a text of pairs of digits. -/
def hexPairs : List Char → Option (List Byte)
  | c :: d :: hex => do
    let byte ← Stoul.stoul16 [c, d]
    let bytes ← hexPairs hex
    return byte.setWidth 8 :: bytes
  | _ => some []

/-- Bytes are written one by one. -/
def writeBytes {β : Type} (bus : PhysBus β) : List Byte → Word → β → β
  | [], _, b => b
  | byte :: bytes, addr, b =>
    writeBytes bus bytes (addr + 1) (bus.write addr (byte.setWidth 32) 1 b)

theorem writePairs_eq {β : Type} (bus : PhysBus β) (hex : List Char) (addr : Word) (b : β) :
    writePairs bus hex addr b = (hexPairs hex).map fun bytes => writeBytes bus bytes addr b := by
  induction hex using hexPairs.induct generalizing addr b with
  | case1 c d hex ih =>
    rw [writePairs, hexPairs]
    cases Stoul.stoul16 [c, d] with
    | none => rfl
    | some byte =>
      simp only [Option.bind_eq_bind, Option.bind_some, ih]
      cases hexPairs hex <;> rfl
  | case2 hex h =>
    rw [writePairs.eq_2 _ _ _ _ h, hexPairs.eq_2 _ h]
    rfl

theorem hexPairs_hexText (bytes : List Byte) : hexPairs (hexText bytes) = some bytes := by
  induction bytes with
  | nil => rfl
  | cons byte bytes ih =>
    have htext := setw2_of_lt byte.isLt
    have hbyte := stoul16_setw2 byte.isLt
    rw [htext] at hbyte
    rw [hexText, List.flatMap_cons, htext, List.cons_append, List.cons_append, List.nil_append,
      hexPairs, hbyte, Option.bind_eq_bind, Option.bind_some]
    change (hexPairs (hexText bytes)).bind _ = _
    rw [ih, Option.bind_some, BitVec.setWidth_ofNat_of_le (by decide), BitVec.ofNat_toNat,
      BitVec.setWidth_eq]
    rfl

/-- The memory with `bytes` from `addr` on. -/
def filled (m : Ram) (addr : Word) (bytes : List Byte) : Ram :=
  fun p => (bytes[(p - addr).toNat]?).getD (m p)

theorem filled_cons (m : Ram) (addr : Word) (byte : Byte) {bytes : List Byte}
    (h : bytes.length < 2 ^ 32) :
    filled (Bytes.writeLE m addr (byte.setWidth 32 : Word) 1) (addr + 1) bytes =
      filled m addr (byte :: bytes) := by
  funext p
  unfold filled
  rw [Bytes.writeLE_apply (by decide)]
  by_cases hp : p = addr
  · subst hp
    rw [Bytes.toNat_self_sub_succ, List.getElem?_eq_none (by omega), BitVec.sub_self]
    simp
  · rw [Bytes.toNat_sub_succ hp, List.getElem?_cons_succ, if_neg (by omega)]

section

variable {β : Type} {bus : PhysBus β} {lo hi : ℕ} {View : β → Ram → Prop}
  (hram : RamAt bus lo hi View) (hhi : hi < 2 ^ 32)

include hram hhi

omit hram in
theorem toNat_add_one_of_lt {a : Word} (h : a.toNat < hi) : (a + 1).toNat = a.toNat + 1 := by
  rw [BitVec.toNat_add]
  exact Nat.mod_eq_of_lt (show a.toNat + 1 < 2 ^ 32 by omega)

theorem view_writeBytes {bytes : List Byte} {a : Word} {b : β} {m : Ram} (h : View b m)
    (hlo : lo ≤ a.toNat) (hend : a.toNat + bytes.length ≤ hi) :
    View (writeBytes bus bytes a b) (filled m a bytes) := by
  induction bytes generalizing a b m with
  | nil => exact h
  | cons byte bytes ih =>
    rw [List.length_cons] at hend
    have hsucc := toNat_add_one_of_lt hhi (a := a) (by omega)
    rw [writeBytes, ← filled_cons m a byte (by omega)]
    exact ih (hram.write h (by decide) hlo (by omega) _) (by omega) (by omega)

omit hram hhi in
theorem byte_readLE (m : Ram) (addr : Word) :
    ((Bytes.readLE m addr 1 : Word) &&& 0xFF).setWidth 8 = m addr := by
  have hread : (Bytes.readLE m addr 1 : Word) = (m addr).setWidth 32 := by
    simp [Bytes.readLE]
  rw [hread, BitVec.setWidth_and, BitVec.setWidth_setWidth_of_le _ (by decide), BitVec.setWidth_eq]
  exact BitVec.and_allOnes

theorem readBytes_eq {n : ℕ} {a : Word} {b : β} {m : Ram} (h : View b m) (hlo : lo ≤ a.toNat)
    (hend : a.toNat + n ≤ hi) :
    (readBytes bus n a b).1 = (List.range n).map (fun i => m (a + BitVec.ofNat 32 i)) ∧
      View (readBytes bus n a b).2 m := by
  induction n generalizing a b with
  | zero => exact ⟨rfl, h⟩
  | succ n ih =>
    have hsucc := toNat_add_one_of_lt hhi (a := a) (by omega)
    obtain ⟨hv, hview⟩ := hram.read h (n := 1) (by decide) hlo (by omega)
    have hrest := ih (a := a + 1) hview (by omega) (by omega)
    rw [readBytes]
    dsimp only
    refine ⟨?_, hrest.2⟩
    rw [hrest.1, hv, byte_readLE, List.range_succ_eq_map, List.map_cons, List.map_map,
      BitVec.add_zero]
    refine congrArg (_ :: ·) (List.map_congr_left fun i _ => congrArg m ?_)
    rw [BitVec.add_assoc, Nat.succ_eq_add_one, Nat.add_comm i 1, BitVec.ofNat_add]
    rfl

omit hram hhi in
theorem map_filled (m : Ram) (a : Word) {bytes : List Byte} (h : bytes.length ≤ 2 ^ 32) :
    (List.range bytes.length).map (fun i => filled m a bytes (a + BitVec.ofNat 32 i)) = bytes := by
  refine List.ext_getElem (by simp) fun i hi _ => ?_
  have hlt : i < bytes.length := by simpa using hi
  have hoff : (a + BitVec.ofNat 32 i - a).toNat = i := by
    rw [BitVec.add_comm, BitVec.add_sub_cancel, BitVec.toNat_ofNat]
    omega
  rw [List.getElem_map, List.getElem_range, filled, hoff, List.getElem?_eq_getElem hlt,
    Option.getD_some]

end

/-! ### Memory packets -/

/-- The text of an `M` packet that writes `bytes` from `a` on. -/
structure WritesBytes (data : List Char) (a : Word) (bytes : List Byte) : Prop where
  comma : ',' ∈ data
  colon : ':' ∈ data
  addr : ∃ v, Stoul.stoul16 (data.takeWhile (· ≠ ',')) = some v ∧ v.setWidth 32 = a
  pairs : hexPairs (data.dropWhile (· ≠ ':')).tail = some bytes

/-- The text of an `m` packet that reads `n` bytes from `a` on. -/
structure ReadsBytes (data : List Char) (a : Word) (n : ℕ) : Prop where
  comma : ',' ∈ data
  addr : ∃ v, Stoul.stoul16 (data.takeWhile (· ≠ ',')) = some v ∧ v.setWidth 32 = a
  len : ∃ v, Stoul.stoul16 (data.dropWhile (· ≠ ',')).tail = some v ∧
    (v.setWidth 32 : Word).toNat = n

theorem exists_dropWhile {c : Char} {data : List Char} (h : c ∈ data) :
    ∃ d rest, data.dropWhile (· ≠ c) = d :: rest := by
  refine List.exists_cons_of_ne_nil fun hnil => ?_
  have hall := List.dropWhile_eq_nil_iff.1 hnil c h
  exact of_decide_eq_true hall rfl

theorem dropWhile_eq_nil {c : Char} {data : List Char} (h : c ∉ data) :
    data.dropWhile (· ≠ c) = [] :=
  List.dropWhile_eq_nil_iff.2 fun _ hd => decide_eq_true fun heq => h (heq ▸ hd)

/-- The text between delimiters that are not in it. -/
theorem takeWhile_dropWhile_text {c : Char} {text : List Char} (h : c ∉ text) (rest : List Char) :
    (text ++ c :: rest).takeWhile (· ≠ c) = text ∧
      (text ++ c :: rest).dropWhile (· ≠ c) = c :: rest := by
  have hall : ∀ x ∈ text, decide (x ≠ c) = true := fun x hx =>
    decide_eq_true fun hxc => h (hxc ▸ hx)
  rw [List.takeWhile_append_of_pos hall, List.dropWhile_append_of_pos hall]
  simp

theorem writesBytes_text {addrText lenText : List Char} {v : BitVec 64}
    (haddr : Stoul.stoul16 addrText = some v) (hcomma : ',' ∉ addrText) (hcolon : ':' ∉ addrText)
    (hlen : ':' ∉ lenText) (bytes : List Byte) :
    WritesBytes (addrText ++ ',' :: (lenText ++ ':' :: hexText bytes)) (v.setWidth 32) bytes where
  comma := by simp
  colon := by simp
  addr := ⟨v, by rw [(takeWhile_dropWhile_text hcomma _).1, haddr], rfl⟩
  pairs := by
    have hnot : ':' ∉ addrText ++ ',' :: lenText := by simp [hcolon, hlen]
    rw [show addrText ++ ',' :: (lenText ++ ':' :: hexText bytes) =
      (addrText ++ ',' :: lenText) ++ ':' :: hexText bytes by simp,
      (takeWhile_dropWhile_text hnot _).2, List.tail_cons, hexPairs_hexText]

section

variable {β : Type} (bus : PhysBus β) {data : List Char} {a : Word} (iss : ISS β)

theorem handleWriteMem_eq {bytes : List Byte} (h : WritesBytes data a bytes) :
    handleWriteMem bus data iss = some ("OK",
      { iss with env := { iss.env with bus := writeBytes bus bytes a iss.env.bus } }) := by
  obtain ⟨_, _, hcomma⟩ := exists_dropWhile h.comma
  obtain ⟨_, hex, hcolon⟩ := exists_dropWhile h.colon
  obtain ⟨v, hv, rfl⟩ := h.addr
  have hpairs := h.pairs
  rw [hcolon, List.tail_cons] at hpairs
  rw [handleWriteMem, hcomma, hcolon]
  dsimp only
  rw [hv, Option.bind_eq_bind, Option.bind_some, writePairs_eq, hpairs]
  rfl

theorem handleReadMem_eq {n : ℕ} (h : ReadsBytes data a n) :
    handleReadMem bus data iss = some (String.ofList (hexText (readBytes bus n a iss.env.bus).1),
      { iss with env := { iss.env with bus := (readBytes bus n a iss.env.bus).2 } }) := by
  obtain ⟨_, rest, hcomma⟩ := exists_dropWhile h.comma
  obtain ⟨v, hv, rfl⟩ := h.addr
  obtain ⟨l, hl, rfl⟩ := h.len
  rw [hcomma, List.tail_cons] at hl
  rw [handleReadMem, hcomma]
  dsimp only
  rw [hv, hl]
  rfl

end

/-- Writes to RAM are read back by a packet of the same address and length. -/
theorem memory_round_trip {β : Type} {bus : PhysBus β} {lo hi : ℕ} {View : β → Ram → Prop}
    (hram : RamAt bus lo hi View) (hhi : hi < 2 ^ 32) {data data' : List Char} {a : Word}
    {bytes : List Byte} (hw : WritesBytes data a bytes) (hr : ReadsBytes data' a bytes.length)
    {iss : ISS β} {m : Ram} (h : View iss.env.bus m) (hlo : lo ≤ a.toNat)
    (hend : a.toNat + bytes.length ≤ hi) :
    ∃ iss' iss'', handleWriteMem bus data iss = some ("OK", iss') ∧
      handleReadMem bus data' iss' = some (String.ofList (hexText bytes), iss'') ∧
      View iss'.env.bus (filled m a bytes) ∧ View iss''.env.bus (filled m a bytes) ∧
      iss'.state = iss.state ∧ iss''.state = iss.state := by
  have hwrite := view_writeBytes hram hhi h hlo hend
  obtain ⟨hbytes, hread⟩ := readBytes_eq hram hhi hwrite hlo hend
  refine ⟨_, { iss with env := { iss.env with
    bus := (readBytes bus bytes.length a (writeBytes bus bytes a iss.env.bus)).2 } },
    handleWriteMem_eq bus iss hw, ?_, hwrite, hread, rfl, rfl⟩
  rw [handleReadMem_eq bus _ hr]
  dsimp only
  rw [hbytes, map_filled m a (by omega)]

end GDBServer

open GDBServer in
/-- The transfers of the debugger on the platform.  A word in hexadecimal is read back; a `G` packet
with the reply to `g` changes nothing; a full `G` packet is read back, with 0 in `x0`; and what an
`M` packet writes to the RAM, an `m` packet of the same address and length reads back, where no
other byte of the RAM, no other target and no register is changed. -/
theorem gdb_round_trips {δ : Type} [TlmDevice δ] :
    (∀ pre post val, fromHex32Le (pre ++ (toHex32Le val ++ post)) pre.length = some val) ∧
    (∀ iss : ISS (Option (BusPort δ)), iss.state.regs 0 = 0 →
      handleWriteRegs (handleReadRegs iss).toList iss = some ("OK", iss)) ∧
    (∀ (iss : ISS (Option (BusPort δ))) (data : List Char) (v : BitVec 5 → Word) (pc : Word),
      33 * 8 ≤ data.length →
      (∀ i < 32, fromHex32Le data (i * 8) = some (v (BitVec.ofNat 5 i))) →
      fromHex32Le data (32 * 8) = some pc →
      ∃ iss', handleWriteRegs data iss = some ("OK", iss') ∧
        handleReadRegs iss' = String.ofList (regsText (Function.update v 0 0) pc)) ∧
    (∀ (iss : ISS (Option (BusPort δ))) (others : ℕ → Target δ) (m : Ram) (data data' : List Char)
      (a : Word) (bytes : List Byte), PlatformFrame δ others iss.env.bus m →
      WritesBytes data a bytes → ReadsBytes data' a bytes.length → 0x80000000 ≤ a.toNat →
      a.toNat + bytes.length ≤ 0x88000000 →
      ∃ iss' iss'', handleWriteMem (socBus platformBus) data iss = some ("OK", iss') ∧
        handleReadMem (socBus platformBus) data' iss' =
          some (String.ofList (hexText bytes), iss'') ∧
        PlatformFrame δ others iss'.env.bus (filled m a bytes) ∧
        PlatformFrame δ others iss''.env.bus (filled m a bytes) ∧
        iss'.state = iss.state ∧ iss''.state = iss.state) ∧
    (∀ (addrText lenText : List Char) (v : BitVec 64) (bytes : List Byte),
      Stoul.stoul16 addrText = some v → ',' ∉ addrText → ':' ∉ addrText → ':' ∉ lenText →
      WritesBytes (addrText ++ ',' :: (lenText ++ ':' :: hexText bytes)) (v.setWidth 32)
        bytes) := by
  refine ⟨fromHex32Le_toHex32Le, fun iss h0 => ?_, fun iss data v pc hlen h hpc => ?_,
    fun iss others m data data' a bytes h hw hr hlo hend =>
      memory_round_trip (platform_ramAt_frame others) (by decide) hw hr h hlo hend,
    fun addrText lenText v bytes h hcomma hcolon hlen =>
      writesBytes_text h hcomma hcolon hlen bytes⟩
  · have htext : (handleReadRegs iss).toList = regsText iss.state.regs iss.state.pc :=
      String.toList_ofList
    rw [htext, handleWriteRegs_full (length_regsText ..).ge
      (fun i hi => fromHex32Le_regsText _ _ hi) (fromHex32Le_regsText_pc ..) iss, ← h0,
      Function.update_eq_self]
  · exact ⟨_, handleWriteRegs_full hlen h hpc iss, rfl⟩

/-- Two bytes at the start of the RAM, after reset. -/
theorem gdb_round_trips_reset :
    ∃ iss' iss'', GDBServer.handleWriteMem (socBus platformBus) "80000000,2:abCD".toList
        (barePlatform [] [] nil_fits (Nat.zero_le _)) = some ("OK", iss') ∧
      GDBServer.handleReadMem (socBus platformBus) "80000000,2".toList iss' =
        some ("abcd", iss'') := by
  obtain ⟨w, hw, hram⟩ := platformView_reset (wordsBuf [] nil_fits)
    (wordsBuf [] (Nat.zero_le _)) fun _ => ()
  have hwrite : GDBServer.WritesBytes "80000000,2:abCD".toList 0x80000000 [0xAB, 0xCD] :=
    ⟨by decide, by decide, ⟨0x80000000, by decide, by decide⟩, by decide⟩
  have hread : GDBServer.ReadsBytes "80000000,2".toList 0x80000000 2 :=
    ⟨by decide, ⟨0x80000000, by decide, by decide⟩, ⟨2, by decide, by decide⟩⟩
  obtain ⟨iss', iss'', hws, hrs, -⟩ := gdb_round_trips.2.2.2.1
    (barePlatform [] [] nil_fits (Nat.zero_le _)) w.targets _ _ _ _ _
    ⟨w, hw, hram, fun _ _ => rfl⟩ hwrite hread (by decide) (by decide)
  exact ⟨iss', iss'', hws, hrs⟩

end VirtualSoC
