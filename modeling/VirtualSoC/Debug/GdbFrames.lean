import VirtualSoC.Debug.GdbClient

/-!
# The complete packets of a stream
-/

namespace VirtualSoC

namespace Stream

/-! ### The first packet -/

/-- What follows the first `$`. -/
def body (s : Stream) : Stream := (s.dropWhile (·.1 ≠ '$')).tail

/-- The first payload: what comes before the next `#`, or before the end. -/
def payload (s : Stream) : List Char := (s.body.takeWhile (·.1 ≠ '#')).map (·.1)

/-- The packet that is read first. -/
def firstFrame (s : Stream) : Frame := ⟨s.body.length, s.payload⟩

/-- The first packet, if its `#` and the two checksum characters have come, whether the second of
them arrives apart, and what follows. -/
def frame? (s : Stream) : Option (Frame × Bool × Stream) :=
  match s.body.dropWhile (·.1 ≠ '#') with
  | _ :: (_, apart) :: _ :: rest => some (s.firstFrame, apart, rest)
  | _ => none

variable {s : Stream} {f : Frame} {apart : Bool} {rest : Stream}

theorem frame?_eq_some (h : s.frame? = some (f, apart, rest)) :
    f = s.firstFrame ∧
      ∃ b c d, s.body.dropWhile (·.1 ≠ '#') = b :: (c, apart) :: d :: rest := by
  unfold frame? at h
  split at h
  next b c _ d _ heq =>
    cases h
    exact ⟨rfl, b, c, d, heq⟩
  next => cases h

theorem body_cons_of_ne {b : Char × Bool} (h : b.1 ≠ '$') (s : Stream) :
    body (b :: s) = s.body := by
  rw [body, List.dropWhile_cons_of_pos (by simp [h]), body]

theorem body_cons_dollar {b : Char × Bool} (h : b.1 = '$') (s : Stream) : body (b :: s) = s := by
  rw [body, List.dropWhile_cons_of_neg (by simp [h]), List.tail_cons]

/-- The first packet is found in what follows its `$`. -/
theorem frame?_congr {t : Stream} (h : s.body = t.body) : s.frame? = t.frame? := by
  unfold frame? firstFrame payload
  rw [h]

theorem length_body_le (s : Stream) : s.body.length ≤ s.length - 1 := by
  rw [body, List.length_tail]
  exact Nat.sub_le_sub_right (List.dropWhile_sublist _).length_le 1

theorem length_body_lt_of_ne_nil (h : s.body ≠ []) : s.body.length < s.length := by
  have hle := length_body_le s
  have hpos := List.length_pos_of_ne_nil h
  omega

theorem after_lt (h : s.frame? = some (f, apart, rest)) : f.after < s.length := by
  obtain ⟨rfl, b, c, d, hdrop⟩ := frame?_eq_some h
  refine length_body_lt_of_ne_nil fun hnil => ?_
  rw [hnil] at hdrop
  cases hdrop

theorem length_body_lt (h : s.payload ≠ []) : s.body.length < s.length := by
  refine length_body_lt_of_ne_nil fun hnil => h ?_
  rw [payload, hnil]
  rfl

theorem rest_lt_after (h : s.frame? = some (f, apart, rest)) : rest.length < f.after := by
  obtain ⟨rfl, b, c, d, hdrop⟩ := frame?_eq_some h
  have hle := (List.dropWhile_sublist (l := s.body) (·.1 ≠ '#')).length_le
  rw [hdrop] at hle
  simp only [List.length_cons] at hle
  change rest.length < s.body.length
  omega

/-! ### All packets -/

/-- The complete packets that are received.  An empty one says nothing; a kill packet is the
last. -/
def frames (s : Stream) : List Frame :=
  match _ : s.frame? with
  | none => []
  | some (f, _, rest) =>
    if f.payload = [] then frames rest
    else if f.payload.head? = some 'k' then [f]
    else f :: frames rest
termination_by s.length
decreasing_by all_goals exact (rest_lt_after ‹_›).trans (after_lt ‹_›)

theorem frames_of_none (h : s.frame? = none) : s.frames = [] := by
  unfold frames
  split
  next => rfl
  next heq => rw [h] at heq; cases heq

theorem frames_of_some (h : s.frame? = some (f, apart, rest)) :
    s.frames = if f.payload = [] then rest.frames
      else if f.payload.head? = some 'k' then [f] else f :: rest.frames := by
  rw [frames]
  split
  next heq => rw [h] at heq; cases heq
  next heq =>
    rw [h] at heq
    cases heq
    rfl

theorem frames_congr {t : Stream} (h : s.body = t.body) : s.frames = t.frames := by
  have hframe := frame?_congr h
  cases ht : t.frame? with
  | none => rw [frames_of_none ht, frames_of_none (hframe.trans ht)]
  | some r => rw [frames_of_some ht, frames_of_some (hframe.trans ht)]

theorem after_lt_of_mem (h : f ∈ s.frames) : f.after < s.length := by
  induction s using frames.induct with
  | case1 s hs =>
    rw [frames_of_none hs] at h
    cases h
  | case2 s g a rest hs hg ih =>
    rw [frames_of_some hs, if_pos hg] at h
    exact (ih h).trans ((rest_lt_after hs).trans (after_lt hs))
  | case3 s g a rest hs hg hk =>
    rw [frames_of_some hs, if_neg hg, if_pos hk, List.mem_singleton] at h
    exact h ▸ after_lt hs
  | case4 s g a rest hs hg hk ih =>
    rw [frames_of_some hs, if_neg hg, if_neg hk, List.mem_cons] at h
    rcases h with rfl | h
    · exact after_lt hs
    · exact (ih h).trans ((rest_lt_after hs).trans (after_lt hs))

/-- An empty packet is its `#` and the two checksum characters. -/
theorem body_of_payload_nil (h : s.frame? = some (f, apart, rest)) (hpkt : s.payload = []) :
    ∃ b c d, s.body = b :: (c, apart) :: d :: rest ∧ b.1 = '#' := by
  obtain ⟨-, b, c, d, hdrop⟩ := frame?_eq_some h
  have htake : s.body.takeWhile (·.1 ≠ '#') = [] := List.map_eq_nil_iff.1 hpkt
  have hbody : s.body = b :: (c, apart) :: d :: rest := by
    have happ := (List.takeWhile_append_dropWhile (p := (·.1 ≠ '#')) (l := s.body)).symm
    rwa [htake, hdrop] at happ
  refine ⟨b, c, d, hbody, ?_⟩
  by_contra hb
  rw [hbody, List.takeWhile_cons_of_pos (by simp [hb])] at htake
  cases htake

/-- The packets after an empty one, where none is read before. -/
theorem frames_body_of_payload_nil (h : s.frame? = some (f, apart, rest)) (hpkt : s.payload = [])
    (hin : (body s.body).length < rest.length) : frames s.body = rest.frames := by
  obtain ⟨b, c, d, hbody, hb⟩ := body_of_payload_nil h hpkt
  have hskip : body s.body = body ((c, apart) :: d :: rest) := by
    rw [hbody, body_cons_of_ne (by rw [hb]; decide)]
  -- no checksum character is a `$`
  have hc : c ≠ '$' := by
    intro hc
    rw [hskip, body_cons_dollar hc, List.length_cons] at hin
    omega
  have hd : d.1 ≠ '$' := by
    intro hd
    rw [hskip, body_cons_of_ne hc, body_cons_dollar hd] at hin
    omega
  exact frames_congr (hskip.trans ((body_cons_of_ne hc _).trans (body_cons_of_ne hd _)))

theorem firstFrame_mem (h : s.frame? = some (f, apart, rest)) (hpkt : s.payload ≠ []) :
    s.firstFrame ∈ s.frames := by
  obtain ⟨rfl, -⟩ := frame?_eq_some h
  rw [frames_of_some h, if_neg (show ¬ s.firstFrame.payload = [] from hpkt)]
  split
  · exact List.mem_singleton_self _
  · exact List.mem_cons_self

/-- Without its first byte a stream has the same packets, if the packet that is then read first is
one of them and the first byte starts none. -/
theorem frames_tail (hfirst : firstFrame s.tail ∈ s.frames)
    (hlt : ∀ f ∈ s.frames, f.after < s.tail.length) : frames s.tail = s.frames := by
  cases s with
  | nil => rfl
  | cons b t =>
  rw [List.tail_cons] at hfirst hlt ⊢
  by_cases hb : b.1 = '$'
  · have hbody : body (b :: t) = t := body_cons_dollar hb t
    cases hframe : frame? (b :: t) with
    | none =>
      rw [frames_of_none hframe] at hfirst
      cases hfirst
    | some r =>
      obtain ⟨f, apart, rest⟩ := r
      obtain ⟨rfl, -⟩ := frame?_eq_some hframe
      by_cases hpkt : payload (b :: t) = []
      · have hframes : frames (b :: t) = rest.frames := by
          rw [frames_of_some hframe]
          exact if_pos hpkt
        rw [hframes] at hfirst ⊢
        have htail := frames_body_of_payload_nil hframe hpkt
        rw [hbody] at htail
        exact htail (after_lt_of_mem hfirst)
      · have hafter := hlt _ (firstFrame_mem hframe hpkt)
        rw [firstFrame, hbody] at hafter
        exact absurd hafter (Nat.lt_irrefl _)
  · exact (frames_congr (body_cons_of_ne hb t)).symm

/-! ### What `read_packet` takes -/

theorem readTo_eq (c : Char) (s : Stream) :
    s.readTo c = ((s.takeWhile (·.1 ≠ c)).map (·.1), (s.dropWhile (·.1 ≠ c)).tail) := by
  induction s with
  | nil => rfl
  | cons b s ih =>
    rw [readTo]
    by_cases hb : b.1 = c
    · rw [if_neg (not_not.2 hb), List.takeWhile_cons_of_neg (by simp [hb]),
        List.dropWhile_cons_of_neg (by simp [hb])]
      rfl
    · rw [if_pos hb, List.takeWhile_cons_of_pos (by simp [hb]),
        List.dropWhile_cons_of_pos (by simp [hb]), ih]
      rfl

theorem readTo_dollar (s : Stream) : (s.readTo '$').2 = s.body := by
  rw [readTo_eq, body]

theorem readPacket_eq (s : Stream) : GDBServer.readPacket s =
    (s.payload, (read 2 (s.body.dropWhile (·.1 ≠ '#')).tail).2) := by
  unfold GDBServer.readPacket payload
  dsimp only
  rw [readTo_dollar, readTo_eq]

/-- What is left after the first packet and the byte that is read as the acknowledgement. -/
def next (s : Stream) : Stream := ((GDBServer.readPacket s).2.read 1).2

theorem length_next_lt (h : s.payload ≠ []) : s.next.length < s.length := by
  refine GDBServer.length_next_lt ?_
  rwa [readPacket_eq]

/-- The acknowledgement is the byte that comes after the checksum characters, or the second of
these if it comes apart. -/
theorem next_of_some (h : s.frame? = some (f, apart, rest)) :
    s.next = if apart then rest else rest.tail := by
  obtain ⟨-, b, c, d, hdrop⟩ := frame?_eq_some h
  rw [next, readPacket_eq, hdrop]
  cases apart with
  | true => cases hd : d.2 <;> simp [read, hd]
  | false =>
    have hread (s : Stream) : (s.read 1).2 = s.tail := by
      cases s with
      | nil => rfl
      | cons e s => cases he : e.2 <;> simp [read, he]
    cases hd : d.2 <;> simp [read, hd, hread]

end Stream

end VirtualSoC
