import VirtualSoC.Util.ElfImage

/-!
# What a rejected file has written

The loader checks a segment when it comes to it, after the earlier ones have been handed to the
callback.  A load that throws has made the calls of the segments in front of the refused one, and
no others (`rejected_writes`); it has made none when the file is refused by its header or by its
first segment.
-/

namespace VirtualSoC

variable {size : ℕ}

/-- The file is refused after the segments `l`: by its header, before any segment, or at a segment
that lies in the table behind the program headers of `l`. -/
def RefusedAfter (file : Vector Byte size) (l : List Elf32Phdr) : Prop :=
  (∃ e, checkHeader file = some (.error e)) ∧ l = [] ∨
    ∃ eh, checkHeader file = some (.ok eh) ∧ ∃ k < eh.ePhnum.toNat,
      (∃ ph, programHeader file eh k = some ph ∧ ph.Refused size) ∧
        (∀ j < k, ∀ ph ∈ programHeader file eh j, ¬ ph.Refused size) ∧ l = segments file eh k 0

variable {file : Vector Byte size} {eh : Elf32Ehdr}

/-- A loop that throws has come to the segments in front of the refused one. -/
theorem loadSegments_error {n i : ℕ} {r : ElfLoadResult} {ws : List ElfWrite} {e : String}
    (h : loadSegments file eh n i r = some (ws, .error e)) :
    ∃ k < n, (∃ ph, programHeader file eh (i + k) = some ph ∧ ph.Refused size) ∧
      (∀ j < k, ∀ ph ∈ programHeader file eh (i + j), ¬ ph.Refused size) ∧
        ws = (segments file eh k i).flatMap (segmentWrites file) := by
  induction n generalizing i r ws with
  | zero => cases h
  | succ n ih =>
    obtain ⟨ph, hph, h⟩ := Option.bind_eq_some_iff.1 h
    -- the rest of the loop, after a program header that is not refused
    have hnext {ws : List ElfWrite} {r : ElfLoadResult}
        (hrest : loadSegments file eh n (i + 1) r = some (ws, .error e))
        (hnot : ¬ ph.Refused size) :
        ∃ k < n, (∃ ph, programHeader file eh (i + (k + 1)) = some ph ∧ ph.Refused size) ∧
          (∀ j < k + 1, ∀ ph ∈ programHeader file eh (i + j), ¬ ph.Refused size) ∧
            ws = (segments file eh k (i + 1)).flatMap (segmentWrites file) := by
      obtain ⟨k, hk, href, hpre, hws⟩ := ih hrest
      rw [Nat.add_assoc, Nat.add_comm 1 k] at href
      refine ⟨k, hk, href, fun j hj => ?_, hws⟩
      cases j with
      | zero =>
        intro ph' hph'
        cases hph.symm.trans hph'
        exact hnot
      | succ j =>
        have hj' := hpre j (by omega)
        rwa [Nat.add_assoc, Nat.add_comm 1 j] at hj'
    split at h
    next hne =>
      obtain ⟨k, hk, href, hpre, hws⟩ := hnext h fun hr => hne hr.1
      refine ⟨k + 1, by omega, href, hpre, ?_⟩
      rw [segments_succ hph, if_neg hne]
      exact hws
    next heq =>
      split at h
      next hexc =>
        cases h
        exact ⟨0, by omega, ⟨ph, hph, not_not.1 heq, hexc⟩, nofun, rfl⟩
      next hexc =>
        obtain ⟨part, hpart, h⟩ := Option.bind_eq_some_iff.1 h
        obtain ⟨⟨ws', result⟩, hrest, h⟩ := Option.bind_eq_some_iff.1 h
        cases h
        obtain ⟨k, hk, href, hpre, hws⟩ := hnext hrest fun hr => hexc hr.2
        refine ⟨k + 1, by omega, href, hpre, ?_⟩
        rw [segments_succ hph, if_pos (not_not.1 heq), List.flatMap_cons, segmentWrites, hpart,
          Option.getD_some, hws]

theorem doLoad_error {ws : List ElfWrite} {e : String}
    (h : doLoad file = some (ws, .error e)) :
    ∃ l, RefusedAfter file l ∧ ws = l.flatMap (segmentWrites file) := by
  obtain ⟨x, hx, h⟩ := Option.bind_eq_some_iff.1 h
  cases x with
  | error e' =>
    cases h
    exact ⟨[], .inl ⟨⟨_, hx⟩, rfl⟩, rfl⟩
  | ok eh =>
    obtain ⟨k, hk, href, hpre, hws⟩ := loadSegments_error h
    simp only [Nat.zero_add] at href hpre
    exact ⟨_, .inr ⟨eh, hx, k, hk, href, hpre, rfl⟩, hws⟩

/-- **A rejected file has written the segments in front of the refused one.** -/
theorem rejected_writes {size : ℕ} (file : Vector Byte size) {σ : Type} (write : ElfWrite → σ → σ)
    (s s' : σ) (e : String) (h : loadElfFromMemory file write s = some (s', .error e)) :
    ∃ l, RefusedAfter file l ∧
      s' = (l.flatMap (segmentWrites file)).foldl (fun s w => write w s) s := by
  obtain ⟨⟨ws, result⟩, hload, hx⟩ := Option.map_eq_some_iff.1 h
  cases hx
  obtain ⟨l, hl, rfl⟩ := doLoad_error hload
  exact ⟨l, hl, rfl⟩

/-- An accepted header with two program headers: a segment of one zero at address 0, and one that
lies behind the end of the file. -/
def twoSegments : Vector Byte 116 := Vector.ofFn fun i =>
  ([0x7F, 0x45, 0x4C, 0x46, 1, 1, 1, 0, 0, 0, 0, 0, 0, 0, 0, 0, 2, 0, 0xF3, 0, 1, 0, 0, 0,
    0, 0, 0, 0x80, 52, 0, 0, 0, 0, 0, 0, 0, 0, 0, 0, 0, 52, 0, 32, 0, 2, 0, 0, 0, 0, 0, 0, 0,
    1, 0, 0, 0, 0, 0, 0, 0, 0, 0, 0, 0, 0, 0, 0, 0, 0, 0, 0, 0, 1, 0, 0, 0, 0, 0, 0, 0, 0, 0, 0, 0,
    1, 0, 0, 0, 0, 1, 0, 0, 0, 0, 0, 0, 0, 0, 0, 0, 1, 0, 0, 0, 1, 0, 0, 0, 0, 0, 0, 0, 0, 0, 0, 0] :
      List Byte)[i.1]?.getD 0

/-- The number of calls that the load of the two segments has made. -/
theorem rejected_writes_twoSegments :
    ∃ l, RefusedAfter twoSegments l ∧
      1 = (l.flatMap (segmentWrites twoSegments)).foldl (fun n _ => n + 1) 0 :=
  rejected_writes twoSegments (fun _ n => n + 1) 0 1 "ELF: segment data exceeds file"
    (by decide +kernel)

/-- The first segment is written although the second one is refused. -/
theorem not_rejected_untouched :
    ¬ ∀ (size : ℕ) (file : Vector Byte size) (e : String) (n : ℕ),
      loadElfFromMemory file (fun _ n => n + 1) 0 = some (n, .error e) → n = 0 := by
  intro h
  exact absurd (h 116 twoSegments "ELF: segment data exceeds file" 1 (by decide +kernel))
    (by decide)

end VirtualSoC
