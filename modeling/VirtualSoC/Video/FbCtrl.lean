import Mathlib.Data.List.Induction
import VirtualSoC.Bus.RegisterRun
import VirtualSoC.Platform.Config

/-!
# The framebuffer controller

`FBCtrl` of `video/fb_ctrl.h` and `video/fb_ctrl.cpp`, with `on_vsync` and `on_irq` connected: two
framebuffers of which one is shown, swapped by a write of VSYNC_CTRL.

`fb_presents` : the frames handed to the host are taken from the two buffers in turn, each at the
addresses written last before its swap.
-/

namespace VirtualSoC

/-- A call of `on_vsync`. -/
structure FbFrame where
  fbAddr : Word
  palAddr : Word
  stride : Word
  deriving DecidableEq, Repr

/-- The registers of the framebuffer controller. -/
structure FBCtrl where
  fb0Addr : Word := Cfg.fb0Default
  fb1Addr : Word := Cfg.fb1Default
  stride : Word := 320
  palAddr : Word := Cfg.paletteDefault
  activeBuf : Word := 0
  vsyncPending : Word := 0
  /-- The level last driven on `on_irq`, low before the first call. -/
  irq : Bool := false
  /-- The calls of `on_vsync`, in order. -/
  frames : List FbFrame := []
  deriving DecidableEq, Repr

namespace FBCtrl

variable (f : FBCtrl) {n : ℕ}

/-- A write of VSYNC_CTRL. -/
def swap : FBCtrl :=
  let activeBuf := f.activeBuf ^^^ 1
  let fbAddr := if activeBuf ≠ 0 then f.fb1Addr else f.fb0Addr
  { f with
    activeBuf
    vsyncPending := 1
    irq := true
    frames := f.frames ++ [⟨fbAddr, f.palAddr, f.stride⟩] }

/-- The value read and the next state; `none` where no register is. -/
def access (isWrite : Bool) (addr val : Word) : Option (Word × FBCtrl) :=
  if addr = 0x00 then
    if isWrite then some (val, { f with fb0Addr := val }) else some (f.fb0Addr, f)
  else if addr = 0x04 then
    if isWrite then some (val, { f with fb1Addr := val }) else some (f.fb1Addr, f)
  else if addr = 0x08 then
    if isWrite then some (val, { f with stride := val }) else some (f.stride, f)
  else if addr = 0x0C then
    if isWrite then some (val, { f with palAddr := val }) else some (f.palAddr, f)
  else if addr = 0x10 then
    -- any word written swaps the buffers, and a read finds 0
    if isWrite then some (val, f.swap) else some (0, f)
  else if addr = 0x14 then
    if isWrite then some (val, { f with vsyncPending := 0, irq := false })
    else some (f.activeBuf ||| f.vsyncPending <<< 1, f)
  else none

/-- `FBCtrl::b_transport`. -/
def bTransport (trans : Payload n) : Option (Payload n × FBCtrl) :=
  regTransport f.access f trans

end FBCtrl

/-- The controller; the outputs are the answers to the register accesses. -/
def fbMachine : Machine FBCtrl RegAccess (Σ n, Payload n) := regMachine FBCtrl.access

/-! ### What the words written ask for -/

section

variable (ws : List (Word × Word))

/-- The number of swaps. -/
def swaps : ℕ := ws.countP (·.1 = 0x10)

/-- The frame of a swap after the words `ws`: the second buffer first, then in turn. -/
def nextFrame : FbFrame where
  fbAddr :=
    if swaps ws % 2 = 0 then lastTo 0x04 Cfg.fb1Default ws else lastTo 0x00 Cfg.fb0Default ws
  palAddr := lastTo 0x0C Cfg.paletteDefault ws
  stride := lastTo 0x08 320 ws

/-- A swap has not been acknowledged by a write of VSYNC_STATUS. -/
def vsyncDue : Bool := (ws.reverse.find? fun w => w.1 = 0x10 ∨ w.1 = 0x14).any (·.1 = 0x10)

theorem swaps_snoc (w : Word × Word) :
    swaps (ws ++ [w]) = swaps ws + if w.1 = 0x10 then 1 else 0 := by
  rw [swaps, List.countP_append, List.countP_singleton]
  simp only [decide_eq_true_eq]
  rfl

theorem vsyncDue_snoc (w : Word × Word) :
    vsyncDue (ws ++ [w]) =
      if w.1 = 0x10 then true else if w.1 = 0x14 then false else vsyncDue ws := by
  rw [vsyncDue, List.reverse_append, List.reverse_singleton, List.singleton_append]
  by_cases h : w.1 = 0x10
  · rw [List.find?_cons_of_pos (by simp [h]), if_pos h]
    exact decide_eq_true h
  · rw [if_neg h]
    by_cases h' : w.1 = 0x14
    · rw [List.find?_cons_of_pos (by simp [h']), if_pos h']
      exact decide_eq_false h
    · rw [List.find?_cons_of_neg (by simpa using ⟨h, h'⟩), if_neg h', vsyncDue]

end

namespace FBCtrl

/-- The state after the words `ws`. -/
structure After (ws : List (Word × Word)) (f : FBCtrl) : Prop where
  fb0Addr : f.fb0Addr = lastTo 0x00 Cfg.fb0Default ws
  fb1Addr : f.fb1Addr = lastTo 0x04 Cfg.fb1Default ws
  stride : f.stride = lastTo 0x08 320 ws
  palAddr : f.palAddr = lastTo 0x0C Cfg.paletteDefault ws
  activeBuf : f.activeBuf = if swaps ws % 2 = 0 then 0 else 1
  vsyncPending : f.vsyncPending = if vsyncDue ws then 1 else 0
  irq : f.irq = vsyncDue ws
  length : f.frames.length = swaps ws
  frames : ∀ pre v post, ws = pre ++ (0x10, v) :: post → f.frames[swaps pre]? = some (nextFrame pre)

variable {f : FBCtrl} {ws : List (Word × Word)}

theorem access_read (f : FBCtrl) (addr : Word) : (f.access false addr 0).elim f Prod.snd = f := by
  unfold access
  simp only [Bool.false_eq_true, if_false]
  split_ifs <;> rfl

theorem After.snoc_of_ne {w : Word × Word} {f' : FBCtrl} (h : f.After ws) (hw : w.1 ≠ 0x10)
    (h0 : f'.fb0Addr = if w.1 = 0x00 then w.2 else f.fb0Addr)
    (h1 : f'.fb1Addr = if w.1 = 0x04 then w.2 else f.fb1Addr)
    (hs : f'.stride = if w.1 = 0x08 then w.2 else f.stride)
    (hp : f'.palAddr = if w.1 = 0x0C then w.2 else f.palAddr)
    (hv : f'.vsyncPending = if w.1 = 0x14 then 0 else f.vsyncPending)
    (hi : f'.irq = if w.1 = 0x14 then false else f.irq)
    (ha : f'.activeBuf = f.activeBuf) (hf : f'.frames = f.frames) : f'.After (ws ++ [w]) where
  fb0Addr := by rw [h0, lastTo_snoc, h.fb0Addr]
  fb1Addr := by rw [h1, lastTo_snoc, h.fb1Addr]
  stride := by rw [hs, lastTo_snoc, h.stride]
  palAddr := by rw [hp, lastTo_snoc, h.palAddr]
  activeBuf := by rw [ha, h.activeBuf, swaps_snoc, if_neg hw, Nat.add_zero]
  vsyncPending := by
    rw [hv, vsyncDue_snoc, if_neg hw, h.vsyncPending]
    split <;> rfl
  irq := by rw [hi, vsyncDue_snoc, if_neg hw, h.irq]
  length := by rw [hf, h.length, swaps_snoc, if_neg hw, Nat.add_zero]
  frames pre v post heq := by
    rw [hf]
    rcases List.eq_nil_or_concat post with rfl | ⟨post, x, rfl⟩
    · obtain ⟨-, hx⟩ := List.append_inj' heq rfl
      cases hx
      exact absurd rfl hw
    · rw [List.concat_eq_append, ← List.cons_append, ← List.append_assoc] at heq
      exact h.frames pre v post (List.append_inj' heq rfl).1

theorem After.swap (h : f.After ws) (v : Word) : f.swap.After (ws ++ [(0x10, v)]) := by
  have hframe : f.swap.frames = f.frames ++ [nextFrame ws] := by
    rw [FBCtrl.swap, nextFrame, h.activeBuf, h.fb0Addr, h.fb1Addr, h.palAddr, h.stride]
    split <;> rfl
  refine ⟨?_, ?_, ?_, ?_, ?_, ?_, ?_, ?_, fun pre u post heq => ?_⟩
  · rw [lastTo_snoc]
    exact h.fb0Addr
  · rw [lastTo_snoc]
    exact h.fb1Addr
  · rw [lastTo_snoc]
    exact h.stride
  · rw [lastTo_snoc]
    exact h.palAddr
  · have hswap : f.swap.activeBuf = f.activeBuf ^^^ 1 := rfl
    rw [hswap, h.activeBuf, swaps_snoc, if_pos rfl]
    by_cases heven : swaps ws % 2 = 0
    · rw [if_pos heven, if_neg (by omega)]
      rfl
    · rw [if_neg heven, if_pos (by omega)]
      rfl
  · rw [vsyncDue_snoc]
    rfl
  · rw [vsyncDue_snoc]
    rfl
  · rw [hframe, List.length_append, h.length, swaps_snoc]
    rfl
  · rw [hframe]
    rcases List.eq_nil_or_concat post with rfl | ⟨post, x, rfl⟩
    · -- the swap just made
      obtain ⟨rfl, -⟩ := List.append_inj' heq rfl
      rw [← h.length, List.getElem?_concat_length]
    · rw [List.concat_eq_append, ← List.cons_append, ← List.append_assoc] at heq
      have hold := h.frames pre u post (List.append_inj' heq rfl).1
      rw [List.getElem?_append_left (List.getElem?_eq_some_iff.1 hold).1]
      exact hold

theorem After.write (h : f.After ws) (w : Word × Word) :
    (writeReg access f w).After (ws ++ [w]) := by
  obtain ⟨addr, val⟩ := w
  unfold writeReg FBCtrl.access
  dsimp only
  by_cases h0 : addr = 0x00
  · subst h0
    exact h.snoc_of_ne (by simp) rfl rfl rfl rfl rfl rfl rfl rfl
  by_cases h1 : addr = 0x04
  · subst h1
    exact h.snoc_of_ne (by simp) rfl rfl rfl rfl rfl rfl rfl rfl
  by_cases h2 : addr = 0x08
  · subst h2
    exact h.snoc_of_ne (by simp) rfl rfl rfl rfl rfl rfl rfl rfl
  by_cases h3 : addr = 0x0C
  · subst h3
    exact h.snoc_of_ne (by simp) rfl rfl rfl rfl rfl rfl rfl rfl
  by_cases h4 : addr = 0x10
  · subst h4
    exact h.swap val
  by_cases h5 : addr = 0x14
  · subst h5
    exact h.snoc_of_ne (by simp) rfl rfl rfl rfl rfl rfl rfl rfl
  · simp only [h0, h1, h2, h3, h4, h5, if_false, Option.elim_none]
    exact h.snoc_of_ne h4 (if_neg h0).symm (if_neg h1).symm (if_neg h2).symm (if_neg h3).symm
      (if_neg h5).symm (if_neg h5).symm rfl rfl

theorem after_init : After [] {} :=
  ⟨rfl, rfl, rfl, rfl, rfl, rfl, rfl, rfl, fun pre v post h => by
    cases pre <;> cases h⟩

theorem after_run (is : List RegAccess) : (fbMachine.run {} is).After (regWrites is) := by
  rw [fbMachine, regMachine_run access_read]
  induction regWrites is using List.reverseRecOn with
  | nil => exact after_init
  | append_singleton ws w ih =>
    rw [List.foldl_append]
    exact ih.write w

end FBCtrl

/-- From reset, after any register accesses: there is one frame for each swap, taken from the two
buffers in turn at the addresses, palette and stride written last before the swap; the line is high
iff the last swap has not been acknowledged; and a read of VSYNC_STATUS tells which buffer is shown
and whether the swap is to be acknowledged. -/
theorem fb_presents (is : List RegAccess) :
    (fbMachine.run {} is).frames.length = swaps (regWrites is) ∧
    (∀ pre v post, regWrites is = pre ++ (0x10, v) :: post →
      (fbMachine.run {} is).frames[swaps pre]? = some (nextFrame pre)) ∧
    ((fbMachine.run {} is).irq = true ↔ vsyncDue (regWrites is) = true) ∧
    ∀ a : RegAccess, a.IsRead → a.addr = 0x14 →
      (fbMachine.out (fbMachine.run {} is) a).2.getWord = some
        ((if swaps (regWrites is) % 2 = 0 then 0 else 1) |||
          (if vsyncDue (regWrites is) then 2 else 0)) := by
  have h := FBCtrl.after_run is
  refine ⟨h.length, h.frames, by rw [h.irq], fun a hr haddr => ?_⟩
  have hacc : (fbMachine.run {} is).access false a.addr 0 =
      some ((if swaps (regWrites is) % 2 = 0 then 0 else 1) |||
        (if vsyncDue (regWrites is) then 2 else 0), fbMachine.run {} is) := by
    rw [haddr, ← h.activeBuf]
    have hpending : (fbMachine.run {} is).vsyncPending <<< 1 =
        if vsyncDue (regWrites is) then 2 else 0 := by
      rw [h.vsyncPending]
      split <;> rfl
    rw [← hpending]
    rfl
  exact (regMachine_out_of_read hr hacc).2

end VirtualSoC
