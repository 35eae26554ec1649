import Urt.Rtai.Agreement

/-!
# Named objects over whole runs

The steps of processes on RTAI, one lemma for each, and what follows for runs: the registry and
RTAI agree all through a run exactly if every step is regular (`rtai_agreed_iff`); a handle
then always finds its object (`rtai_objects_agree`), and nothing is left in RTAI once all have
detached (`rtai_all_released`). Regular runs are orderly runs of the protocol
(`rtai_refines_protocol`).
-/

namespace Urt.Rtai

variable {c : Config} {σ : Type} {R : Services σ} {table : σ → Nat → Option Entry}

namespace Agreed

variable {s s' : Sys c σ} (law : Lawful R table)

include law

theorem publish (h : Agreed R table s) {p : Nat} {name : CString} {y : Handle c}
    (hp : s.calls[p]? = some (.created name y))
    (hsettled : Protocol.Settled (Sys.view
      { world := { s.world with mem := incNameCount s.world.mem y.id }
        calls := s.calls.set p .done
        handles := s.handles ++ [.live y] })) :
    Agreed R table
      { world := { s.world with mem := incNameCount s.world.mem y.id }
        calls := s.calls.set p .done
        handles := s.handles ++ [.live y] } := by
  have hy : Call.created name y ∈ s.calls := List.mem_of_getElem? hp
  have hpi : s.view.holds p = some (name, y.id) := Protocol.holds_of_call (view_call hp)
  have hcount := h.settled.refs_zero hpi
  have hless : (s.world.mem.objects y.id).count.toNat + 1 < 2 ^ 32 := by
    have h0 : (s.world.mem.objects y.id).count = 0 := hcount.1
    rw [h0]
    decide
  refine h.of_quiet law hsettled rfl rfl (fields_inc s.world.mem y.id) ?_ ?_ ?_ ?_ ?_ ?_ ?_ ?_
  · intro j hj
    by_cases hji : j = y.id
    · rw [hji]
      exact h.settled.kept.inUse p name y.id hpi
    · rw [Internal.used, incNameCount_objects, Function.update_of_ne hji] at hj
      exact hj
  · rintro j (hpos | ⟨name', z, hz, rfl⟩)
    · by_cases hji : j = y.id
      · exact .inr ⟨name, y, hy, hji.symm⟩
      · dsimp only at hpos
        rw [count_incNameCount hless, if_neg hji, Nat.add_zero] at hpos
        exact .inl hpos
    · rcases List.mem_or_eq_of_mem_set hz with hz | hz
      · exact .inr ⟨name', z, hz, rfl⟩
      · cases hz
  · rintro j (hpos | ⟨name', z, hz, rfl⟩)
    · refine .inl (.inl ?_)
      dsimp only
      rw [count_incNameCount hless]
      omega
    · by_cases hzy : Call.created name' z = .created name y
      · cases hzy
        refine .inl (.inl ?_)
        dsimp only
        rw [count_incNameCount hless, if_pos rfl]
        omega
      · exact .inl (.inr ⟨name', z, mem_set_of_ne hz hp hzy, rfl⟩)
  · exact fun _ _ _ _ _ => mem_set_iff hp (by rintro ⟨⟩) (by rintro ⟨⟩)
  · intro j
    have hset := Tally.countP_set hp (Call.has j) .done
    simp only [Sys.holders, Tally.countP_append_singleton]
    simp only [Holding.has, Call.has, Bool.toNat_false] at hset ⊢
    omega
  · rintro z (hz | ⟨name', hz⟩)
    · rcases List.mem_append.mp hz with hz | hz
      · exact .inl hz
      · cases List.mem_singleton.mp hz
        exact .inr ⟨name, hy⟩
    · rcases List.mem_or_eq_of_mem_set hz with hz | hz
      · exact .inr ⟨name', hz⟩
      · cases hz
  · exact calls_set (h.calls_ok fun j _ => fields_inc s.world.mem y.id j) p trivial
  · intro x hx
    rcases List.mem_append.mp hx with hx | hx
    · exact h.holdings_ok (fun j _ => fields_inc s.world.mem y.id j) x hx
    · cases List.mem_singleton.mp hx
      trivial

/-- The reference of memory that was given back is deregistered. -/
theorem deregister (h : Agreed R table s) {q : Nat} {i : Slot c}
    (hq : s.handles[q]? = some (.freed i))
    (hsettled : Protocol.Settled (Sys.view
      { s with
        world := { s.world with mem := decCount s.world.mem i }
        handles := s.handles.set q .gone })) :
    Agreed R table
      { s with
        world := { s.world with mem := decCount s.world.mem i }
        handles := s.handles.set q .gone } := by
  have hmem : (s.world.mem.objects i).type = Kind.mem.type :=
    h.holding _ (List.mem_of_getElem? hq)
  refine h.of_quiet law hsettled rfl rfl (fields_dec s.world.mem i) ?_ ?_ ?_ ?_ ?_ ?_ ?_ ?_
  · intro j hj
    exact used_of_dec hj
  · rintro j (hpos | ⟨name, y, hy, rfl⟩)
    · dsimp only at hpos
      rw [count_decCount] at hpos
      exact .inl (by omega)
    · exact .inr ⟨name, y, hy, rfl⟩
  · rintro j (hpos | ⟨name, y, hy, rfl⟩)
    · by_cases hji : j = i
      · rw [hji]
        exact .inr hmem
      · refine .inl (.inl ?_)
        dsimp only
        rw [count_decCount, if_neg hji]
        exact hpos
    · exact .inl (.inr ⟨name, y, hy, rfl⟩)
  · exact fun _ _ _ _ _ => Iff.rfl
  · intro j
    have hset := Tally.countP_set hq (Holding.has j) .gone
    simp only [Sys.holders]
    simp only [Holding.has, Bool.toNat_false] at hset
    omega
  · rintro x (hx | hx)
    · rcases List.mem_or_eq_of_mem_set hx with hx | hx
      · exact .inl hx
      · cases hx
    · exact .inr hx
  · exact h.calls_ok fun j _ => fields_dec s.world.mem i j
  · intro x hx
    rcases List.mem_or_eq_of_mem_set hx with hx | rfl
    · exact h.holdings_ok (fun j _ => fields_dec s.world.mem i j) x hx
    · trivial

theorem reserve (h : Agreed R table s) {k : Kind} {name : CString} {size : UInt64}
    {value : UInt32} {i : Slot c} (hfree : findFree s.world.mem = some i)
    (hapart : ∀ j, s.world.mem.used j = true → s.num R j ≠ R.nam2num name)
    (hsettled : Protocol.Settled (Sys.view
      { s with
        world := { s.world with mem := reserved s.world.mem i name }
        calls := s.calls ++ [.reserved k name size value i] })) :
    Agreed R table
      { s with
        world := { s.world with mem := reserved s.world.mem i name }
        calls := s.calls ++ [.reserved k name size value i] } := by
  set s' : Sys c σ :=
    { s with
      world := { s.world with mem := reserved s.world.mem i name }
      calls := s.calls ++ [.reserved k name size value i] } with hs'
  have hunused := (findFree_some hfree).1
  have hmade : SameMade s.calls s'.calls := sameMade_append rfl s.calls
  have hnum : s'.num R i = R.nam2num name := by
    apply law.nam2num_congr
    change truncName ((reserved s.world.mem i name).objects i).name.str = _
    rw [reserved_objects, Function.update_self]
    exact RegisteredObject.reservedObject_tname name
  have hother : ∀ j, j ≠ i → s'.world.mem.objects j = s.world.mem.objects j := by
    intro j hj
    exact Function.update_of_ne hj _ _
  have hcount : ∀ j, (s'.world.mem.objects j).count.toNat = (s.world.mem.objects j).count.toNat :=
    count_reserved hunused name
  have hrec : ∀ j, s'.Recorded j ↔ s.Recorded j := by
    intro j
    simp only [Sys.Recorded, hcount, hmade.created]
  have hnew : ¬ (s.Recorded i ∨ s.Unrecorded i) := by
    intro hi
    rw [used_of_owned h.settled hi] at hunused
    cases hunused
  have hfresh : ¬ s.Recorded i := fun hi => hnew (.inl hi)
  have hcalls : ∀ call ∈ s.calls, CallOk s'.world.mem call := by
    refine h.calls_ok fun j hj => ?_
    rw [hother j (by rintro rfl; exact hfresh hj)]
    exact ⟨rfl, rfl⟩
  have hnone : table s.world.os (s'.num R i) = none := by
    rw [hnum]
    exact h.table_none hapart
  refine h.of_slot (i := i) (x := none) hsettled ?_ ?_ ?_ ?_ ?_ ?_ ?_ ?_ ?_
    (fun _ _ _ _ _ _ => hmade.1 _ rfl) ?_ ?_ ?_ ?_ ?_
  · rw [← hnone, Function.update_eq_self]
  · intro j hj
    rw [hother j hj]
    exact ⟨rfl, rfl⟩
  · intro j hj hu
    rw [Internal.used, hother j hj] at hu
    exact hu
  · intro j _ hu
    rw [hnum]
    exact hapart j hu
  · exact fun hi => absurd hi hnew
  · exact fun j _ => hrec j
  · intro j _
    rw [Sys.holders, Sys.holders, hmade.2]
  · intro hi
    exact absurd ((hrec i).mp hi) hfresh
  · exact fun _ _ => rfl
  · intro k' name' size' adr hx
    exact absurd (.inr ⟨k', name', size', adr, (hmade.1 _ rfl).mp hx⟩) hnew
  · rintro y (hy | ⟨name', hy⟩) _
    · exact ⟨.inl hy, fun _ => rfl⟩
    · exact ⟨.inr ⟨name', (hmade.1 _ rfl).mp hy⟩, fun _ => rfl⟩
  · rintro y (hy | ⟨name', hy⟩) rfl
    · exact absurd (recorded_of_has h.settled (.inl hy)) hfresh
    · exact absurd (recorded_of_has h.settled (.inr ⟨name', (hmade.1 _ rfl).mp hy⟩)) hfresh
  · exact calls_append hcalls trivial
  · refine h.holdings_ok fun j hj => ?_
    rw [hother j (by rintro rfl; exact hfresh hj)]
    exact ⟨rfl, rfl⟩

omit law in
/-- An object was made. -/
theorem made_new (h : Agreed R table s) {p : Nat} {k : Kind} {name : CString} {size : UInt64}
    {value : UInt32} {i : Slot c} {adr : Nat} {os : σ} {m : Made}
    (hp : s.calls[p]? = some (.reserved k name size value i)) (hfits : Fits k m)
    (htable : table os = Function.update (table s.world.os) (s.num R i) (some ⟨adr, 1, m⟩))
    (hsettled : Protocol.Settled (Sys.view
      { s with
        world := { s.world with os := os }
        calls := s.calls.set p (.made k name size i adr) })) :
    Agreed R table
      { s with
        world := { s.world with os := os }
        calls := s.calls.set p (.made k name size i adr) } := by
  set s' : Sys c σ :=
    { s with
      world := { s.world with os := os }
      calls := s.calls.set p (.made k name size i adr) } with hs'
  have hfresh : ¬ s.Recorded i := not_recorded_of_holds h.settled hp rfl (by rintro _ _ ⟨⟩)
  have hpi : s.view.holds p = some (name, i) := Protocol.holds_of_call (view_call hp)
  have hused : s.world.mem.used i = true := h.settled.kept.inUse p name i hpi
  have hcreated : ∀ name' y, Call.created name' y ∈ s'.calls ↔ Call.created name' y ∈ s.calls :=
    fun _ _ => mem_set_iff hp (by rintro ⟨⟩) (by rintro ⟨⟩)
  have hrec : ∀ j, s'.Recorded j ↔ s.Recorded j := by
    intro j
    simp only [Sys.Recorded, hcreated]
    rfl
  have hhas : ∀ y, s'.Has y → s.Has y := by
    rintro y (hy | ⟨name', hy⟩)
    · exact .inl hy
    · exact .inr ⟨name', (hcreated name' y).mp hy⟩
  have hmember : Call.made k name size i adr ∈ s'.calls :=
    List.mem_set (List.getElem?_eq_some_iff.mp hp).1 _
  refine h.of_slot (i := i) (x := some ⟨adr, 1, m⟩) hsettled htable ?_ ?_ ?_ ?_ ?_ ?_ ?_ ?_ ?_ ?_
    ?_ ?_ ?_ ?_
  · exact fun _ _ => ⟨rfl, rfl⟩
  · exact fun _ _ hu => hu
  · intro j hj hu hn
    exact hj (h.distinct j i hu hused hn)
  · exact fun _ => rfl
  · exact fun j _ => hrec j
  · intro j _
    have hset := Tally.countP_set hp (Call.has j) (.made k name size i adr)
    simp only [Call.has, Bool.toNat_false, Nat.add_zero] at hset
    rw [Sys.holders, Sys.holders, hs', hset]
  · intro hi
    exact absurd ((hrec i).mp hi) hfresh
  · intro _ hi
    exact absurd ⟨k, name, size, adr, hmember⟩ hi
  · intro k' name' size' j adr' hj
    refine mem_set_iff hp (by rintro ⟨⟩) ?_
    rintro ⟨⟩
    exact hj rfl
  · intro k' name' size' adr' hx
    rcases List.mem_or_eq_of_mem_set hx with hx | hx
    · -- one creator holds the slot
      obtain ⟨q, hq, hqi⟩ := holds_of_made hx
      have hqp := h.settled.kept.sole q p name' name i hqi hpi
      rw [hqp, hp] at hq
      cases hq
    · cases hx
      exact ⟨m, hfits, rfl⟩
  · exact fun y hy _ => ⟨hhas y hy, fun _ => rfl⟩
  · intro y hy hyi
    exact absurd (hyi ▸ recorded_of_has h.settled (hhas y hy)) hfresh
  · exact calls_set h.call p trivial
  · exact h.holding

/-- Objects of different slots are at different addresses. -/
theorem adr_ne (h : Agreed R table s) {y : Handle c} (hy : s.Has y) {i : Slot c} (hi : y.id ≠ i)
    (hused : s.world.mem.used i = true) {e : Entry}
    (he : table s.world.os (s.num R i) = some e) : y.adr ≠ e.adr := by
  intro ha
  obtain ⟨e', he', hadr⟩ := (h.handle y hy).object
  have hn := law.adr_inj he' he (hadr.trans ha)
  exact hi (h.distinct y.id i (used_of_recorded h.settled (recorded_of_has h.settled hy)) hused hn)

/-- A creator recorded its object. -/
theorem record (h : Agreed R table s) {p : Nat} {k : Kind} {name : CString} {size : UInt64}
    {i : Slot c} {adr : Nat} (hp : s.calls[p]? = some (.made k name size i adr))
    (hsettled : Protocol.Settled (Sys.view
      { s with
        world :=
          { s.world with
            mem := s.world.mem.setObject i (recorded (c := c) k size (s.world.mem.objects i))
            word := markWord k adr i s.world.word }
        calls := s.calls.set p (.created name { kind := k, adr := adr, id := i }) })) :
    Agreed R table
      { s with
        world :=
          { s.world with
            mem := s.world.mem.setObject i (recorded (c := c) k size (s.world.mem.objects i))
            word := markWord k adr i s.world.word }
        calls := s.calls.set p (.created name { kind := k, adr := adr, id := i }) } := by
  set x : Handle c := { kind := k, adr := adr, id := i } with hx
  set s' : Sys c σ :=
    { s with
      world :=
        { s.world with
          mem := s.world.mem.setObject i (recorded (c := c) k size (s.world.mem.objects i))
          word := markWord k adr i s.world.word }
      calls := s.calls.set p (.created name x) } with hs'
  have hmember : Call.made k name size i adr ∈ s.calls := List.mem_of_getElem? hp
  have hfresh : ¬ s.Recorded i := not_recorded_of_made h.settled hmember
  have hpi : s.view.holds p = some (name, i) := Protocol.holds_of_call (view_call hp)
  have hused : s.world.mem.used i = true := h.settled.kept.inUse p name i hpi
  obtain ⟨m, hfits, hentry⟩ := h.made k name size i adr hmember
  have hself : s'.world.mem.objects i = recorded (c := c) k size (s.world.mem.objects i) :=
    Function.update_self i _ _
  have hother : ∀ j, j ≠ i → s'.world.mem.objects j = s.world.mem.objects j := by
    intro j hj
    exact Function.update_of_ne hj _ _
  have hnum : s'.num R i = s.num R i := by
    rw [Sys.num, Sys.num, hself]
    rfl
  have hcount : ∀ j, (s'.world.mem.objects j).count = (s.world.mem.objects j).count := by
    intro j
    by_cases hj : j = i
    · rw [hj, hself]
      rfl
    · rw [hother j hj]
  -- whoever has an object now had it before, or is this creator
  have hhas : ∀ y, s'.Has y → s.Has y ∨ y = x := by
    rintro y (hy | ⟨name', hy⟩)
    · exact .inl (.inl hy)
    · rcases List.mem_or_eq_of_mem_set hy with hy | hy
      · exact .inl (.inr ⟨name', hy⟩)
      · cases hy
        exact .inr rfl
  have hold : ∀ y, s.Has y → y.id ≠ i := by
    rintro y hy rfl
    exact hfresh (recorded_of_has h.settled hy)
  have hrecorded : s'.Recorded i :=
    .inr ⟨name, x, List.mem_set (List.getElem?_eq_some_iff.mp hp).1 _, rfl⟩
  have hset := Tally.countP_set hp
  have hholders : s'.holders i = 1 := by
    have h0 := holders_eq_zero h.settled hfresh
    have hs := hset (Call.has i) (.created name x)
    have hself : Call.has i (.created name x) = true := by simp [Call.has, hx]
    have hnone : Call.has i (.made k name size i adr) = false := rfl
    rw [hself, hnone, Bool.toNat_false, Bool.toNat_true] at hs
    rw [Sys.holders] at h0 ⊢
    simp only [hs'] at hs ⊢
    omega
  refine h.of_slot (i := i) (x := some ⟨adr, 1, m⟩) hsettled ?_ ?_ ?_ ?_ ?_ ?_ ?_ ?_ ?_ ?_ ?_ ?_ ?_
    ?_ ?_
  · rw [hnum, ← hentry, Function.update_eq_self]
  · intro j hj
    rw [hother j hj]
    exact ⟨rfl, rfl⟩
  · intro j hj hu
    rw [Internal.used, hother j hj] at hu
    exact hu
  · intro j hj hu hn
    exact hj (h.distinct j i hu hused (hn.trans hnum))
  · exact fun _ => hnum.symm
  · intro j hj
    rw [Sys.Recorded, Sys.Recorded, hcount]
    refine or_congr_right ⟨?_, ?_⟩
    · rintro ⟨name', y, hy, rfl⟩
      rcases List.mem_or_eq_of_mem_set hy with hy | hy
      · exact ⟨name', y, hy, rfl⟩
      · cases hy
        exact absurd rfl hj
    · rintro ⟨name', y, hy, rfl⟩
      exact ⟨name', y, mem_set_of_ne hy hp (by rintro ⟨⟩), rfl⟩
  · intro j hj
    have hs := hset (Call.has j) (.created name x)
    have hne : Call.has j (.created name x) = false := by
      simp [Call.has, hx, Ne.symm hj]
    have hnone : Call.has j (.made k name size i adr) = false := rfl
    rw [hne, hnone, Bool.toNat_false] at hs
    simp only [Sys.holders, hs'] at hs ⊢
    omega
  · intro _
    refine ⟨k, by rw [hself]; rfl, hfits, ?_⟩
    rw [Sys.users, hholders]
    split <;> rfl
  · intro hi _
    exact absurd hrecorded hi
  · intro k' name' size' j adr' hj
    refine mem_set_iff hp ?_ (by rintro ⟨⟩)
    rintro ⟨⟩
    exact hj rfl
  · intro k' name' size' adr' hx'
    obtain ⟨q, hq⟩ := List.mem_iff_getElem?.mp hx'
    rcases Tally.getElem?_set_cases hq with ⟨-, he⟩ | ⟨hqp, hq'⟩
    · cases he
    · -- one creator holds the slot
      have hqi : s.view.holds q = some (name', i) := Protocol.holds_of_call (view_call hq')
      exact absurd (h.settled.kept.sole q p name' name i hqi hpi) hqp
  · intro y hy hyi
    have hys : s.Has y := (hhas y hy).resolve_right (by rintro rfl; exact hyi rfl)
    exact ⟨hys, fun _ => markWord_of_ne (h.adr_ne law hys hyi hused hentry) k i s.world.word⟩
  · intro y hy hyi
    rcases hhas y hy with hys | rfl
    · exact absurd hyi (hold y hys)
    · refine ⟨by rw [hself]; rfl, ⟨⟨adr, 1, m⟩, ?_, rfl⟩, ?_⟩
      · rw [hnum]
        exact hentry
      · intro hk
        exact markWord_self hk adr i s.world.word
  · refine calls_set (h.calls_ok fun j hj => ?_) p trivial
    rw [hother j (by rintro rfl; exact hfresh hj)]
    exact ⟨rfl, rfl⟩
  · refine h.holdings_ok fun j hj => ?_
    rw [hother j (by rintro rfl; exact hfresh hj)]
    exact ⟨rfl, rfl⟩

/-- An attacher got the object. -/
theorem attached (h : Agreed R table s) {p : Nat} {k : Kind} {name : CString} {i : Slot c}
    {e : Entry} {os : σ} (hp : s.calls[p]? = some (.referenced k name i))
    (he : table s.world.os (s.num R i) = some e)
    (htable : table os = Function.update (table s.world.os) (s.num R i)
      (some (if k = .mem then e.more else e)))
    (hsettled : Protocol.Settled (Sys.view
      { world :=
          { mem := s.world.mem.setObject i (marked k (s.world.mem.objects i))
            os := os
            word := markWord k e.adr i s.world.word }
        calls := s.calls.set p .done
        handles := s.handles ++ [.live { kind := k, adr := e.adr, id := i }] })) :
    Agreed R table
      { world :=
          { mem := s.world.mem.setObject i (marked k (s.world.mem.objects i))
            os := os
            word := markWord k e.adr i s.world.word }
        calls := s.calls.set p .done
        handles := s.handles ++ [.live { kind := k, adr := e.adr, id := i }] } := by
  set x : Handle c := { kind := k, adr := e.adr, id := i } with hx
  set s' : Sys c σ :=
    { world :=
        { mem := s.world.mem.setObject i (marked k (s.world.mem.objects i))
          os := os
          word := markWord k e.adr i s.world.word }
      calls := s.calls.set p .done
      handles := s.handles ++ [.live x] } with hs'
  have hcall : Call.referenced k name i ∈ s.calls := List.mem_of_getElem? hp
  have htype : (s.world.mem.objects i).type = k.type := (h.call _ hcall).1
  have hrecorded : s.Recorded i :=
    recorded_of_refs h.settled (refs_of_call hcall (by simp [Call.view]))
  have hused := used_of_recorded h.settled hrecorded
  have hmade : SameMade s.calls s'.calls := sameMade_set hp rfl rfl
  have hmem : s'.world.mem.objects =
      Function.update s.world.mem.objects i (marked k (s.world.mem.objects i)) := rfl
  have hobj := fields_of_update hmem rfl rfl
  have hother : ∀ j, j ≠ i → s'.world.mem.objects j = s.world.mem.objects j := by
    intro j hj
    exact Function.update_of_ne hj _ _
  have hcount : ∀ j, (s'.world.mem.objects j).count = (s.world.mem.objects j).count := by
    intro j
    by_cases hj : j = i
    · rw [hj, show s'.world.mem.objects i = marked k (s.world.mem.objects i) from
        Function.update_self i _ _]
      rfl
    · rw [hother j hj]
  have hrec : ∀ j, s'.Recorded j ↔ s.Recorded j := by
    intro j
    simp only [Sys.Recorded, hcount, hmade.created]
  have hnum : s'.num R i = s.num R i := by
    rw [Sys.num, Sys.num, (hobj i).2]
  have hentry := h.entry_of_type hrecorded htype
  rw [he] at hentry
  have hnow : table s'.world.os (s'.num R i) = some (if k = .mem then e.more else e) := by
    rw [hnum, hs', htable, Function.update_self]
  have hadr : (if k = .mem then e.more else e).adr = e.adr := by
    split <;> rfl
  have hholders : ∀ j, s'.holders j = s.holders j + if j = i then 1 else 0 := by
    intro j
    rw [Sys.holders, Sys.holders, hmade.2, hs']
    simp only [Tally.countP_append_singleton, Holding.has, hx, Tally.toNat_beq]
    omega
  have hhas : ∀ y, s'.Has y → s.Has y ∨ y = x := by
    rintro y (hy | ⟨name', hy⟩)
    · rcases List.mem_append.mp hy with hy | hy
      · exact .inl (.inl hy)
      · cases List.mem_singleton.mp hy
        exact .inr rfl
    · exact .inl (.inr ⟨name', (hmade.1 _ rfl).mp hy⟩)
  refine h.of_slot (i := i) hsettled (hnum ▸ htable) ?_ ?_ ?_ ?_ ?_ ?_ ?_ ?_
    (fun _ _ _ _ _ _ => hmade.1 _ rfl) ?_ ?_ ?_ ?_ ?_
  · exact fun j _ => hobj j
  · intro j hj hu
    rw [Internal.used, hother j hj] at hu
    exact hu
  · intro j hj hu hn
    exact hj (h.distinct j i hu hused (hn.trans hnum))
  · exact fun _ => hnum.symm
  · exact fun j _ => hrec j
  · intro j hj
    rw [hholders, if_neg hj, Nat.add_zero]
  · intro _
    refine ⟨k, (hobj i).1.trans htype, ?_⟩
    rw [Sys.users, hholders, if_pos rfl]
    obtain ⟨hfits, husers⟩ := hentry
    rw [Sys.users] at husers
    split
    · rename_i hk
      rw [if_pos hk] at husers
      exact ⟨hfits, congrArg (· + 1) husers⟩
    · rename_i hk
      rw [if_neg hk] at husers
      exact ⟨hfits, husers⟩
  · intro hi _
    exact absurd ((hrec i).mpr hrecorded) hi
  · intro _ _ _ _ hx'
    exact absurd hrecorded (not_recorded_of_made h.settled ((hmade.1 _ rfl).mp hx'))
  · intro y hy hyi
    have hys : s.Has y := (hhas y hy).resolve_right (by rintro rfl; exact hyi rfl)
    exact ⟨hys, fun _ => markWord_of_ne (h.adr_ne law hys hyi hused he) k i s.world.word⟩
  · intro y hy hyi
    have hcommon : ∀ z : Handle c, z.id = i → z.kind = k → z.adr = e.adr →
        HandleOk R table s' z := by
      rintro ⟨kind, a, id⟩ rfl rfl rfl
      refine ⟨(hobj _).1.trans htype, ⟨_, hnow, hadr⟩, fun hk => ?_⟩
      exact markWord_self hk e.adr id s.world.word
    rcases hhas y hy with hys | rfl
    · have hok := h.handle y hys
      have hkind : y.kind = k := by
        apply Kind.type_injective
        rw [← hok.type, hyi, htype]
      obtain ⟨e', he', hadr'⟩ := hok.object
      rw [hyi, he] at he'
      cases he'
      exact hcommon y hyi hkind hadr'.symm
    · exact hcommon _ rfl rfl rfl
  · exact calls_set (h.calls_ok fun j _ => hobj j) p trivial
  · intro y hy
    rcases List.mem_append.mp hy with hy | hy
    · exact h.holdings_ok (fun j _ => hobj j) y hy
    · cases List.mem_singleton.mp hy
      trivial

/-- Memory was given back to RTAI. -/
theorem free (h : Agreed R table s) {q : Nat} {x : Handle c}
    (hq : s.handles[q]? = some (.live x)) (hk : x.kind = .mem)
    (hsettled : Protocol.Settled (Sys.view
      { s with
        world := (shmemFree R x.adr s.world).2
        handles := s.handles.set q (.freed (s.world.word x.adr)) })) :
    Agreed R table
      { s with
        world := (shmemFree R x.adr s.world).2
        handles := s.handles.set q (.freed (s.world.word x.adr)) } := by
  have hx : s.Has x := .inl (List.mem_of_getElem? hq)
  have hok := h.handle x hx
  have hword := hok.word hk
  have htype : (s.world.mem.objects x.id).type = Kind.mem.type := hk ▸ hok.type
  set s' : Sys c σ :=
    { s with
      world := (shmemFree R x.adr s.world).2
      handles := s.handles.set q (.freed (s.world.word x.adr)) } with hs'
  have hrecorded := recorded_of_has h.settled hx
  have hused := used_of_recorded h.settled hrecorded
  obtain ⟨e, he, hadr⟩ := hok.object
  have hentry := h.entry_of_type hrecorded htype
  rw [he] at hentry
  obtain ⟨hfits, husers⟩ := hentry
  have hnum : s'.num R x.id = s.num R x.id := rfl
  have htable : table s'.world.os =
      Function.update (table s.world.os) (s.num R x.id) e.less := by
    change table (R.shmFree (R.nam2num (s.world.mem.objects (s.world.word x.adr)).name.str)
      s.world.os) = _
    rw [hword, law.shmFree]
    · rw [show R.nam2num (s.world.mem.objects x.id).name.str = s.num R x.id from rfl, he]
      rfl
    · intro e' he'
      rw [show R.nam2num (s.world.mem.objects x.id).name.str = s.num R x.id from rfl, he] at he'
      cases he'
      exact hfits.shape_eq
  have hrec : ∀ j, s'.Recorded j ↔ s.Recorded j := fun j => Iff.rfl
  have hholders : ∀ j, s'.holders j + (if j = x.id then 1 else 0) = s.holders j := by
    intro j
    have hset := Tally.countP_set hq (Holding.has j) (.freed (s.world.word x.adr))
    simp only [Holding.has, Tally.toNat_beq, Bool.toNat_false] at hset
    simp only [Sys.holders, hs']
    omega
  have hi : s'.holders x.id + 1 = e.users := by
    have hxi := hholders x.id
    rw [if_pos rfl] at hxi
    rw [husers, Sys.users, if_pos rfl]
    exact hxi
  have hless : Entered .mem (s'.users .mem x.id) e.less := by
    rw [Sys.users, if_pos rfl, Entry.less]
    split
    · have h0 : s'.holders x.id = 0 := by omega
      exact h0
    · refine ⟨hfits, ?_⟩
      dsimp only
      omega
  have hhas : ∀ y, s'.Has y → s.Has y := by
    rintro y (hy | hy)
    · rcases List.mem_or_eq_of_mem_set hy with hy | hy
      · exact .inl hy
      · cases hy
    · exact .inr hy
  refine h.of_slot (i := x.id) hsettled htable ?_ ?_ ?_ ?_ ?_ ?_ ?_ ?_
    (fun _ _ _ _ _ _ => Iff.rfl) ?_ ?_ ?_ ?_ ?_
  · exact fun _ _ => ⟨rfl, rfl⟩
  · exact fun _ _ hu => hu
  · intro j hj hu hn
    exact hj (h.distinct j x.id hu hused hn)
  · exact fun _ => rfl
  · exact fun j _ => hrec j
  · intro j hj
    have hj' := hholders j
    rw [if_neg hj] at hj'
    exact hj'
  · exact fun _ => ⟨.mem, htype, hless⟩
  · intro hi _
    exact absurd hrecorded hi
  · intro _ _ _ _ hx'
    exact absurd hrecorded (not_recorded_of_made h.settled hx')
  · exact fun y hy _ => ⟨hhas y hy, fun _ => rfl⟩
  · intro y hy hyi
    refine handleOk_mono (h.handle y (hhas y hy)) rfl ?_ fun _ => rfl
    intro e' he'
    rw [hyi, he] at he'
    cases he'
    have hpos := holders_pos_of_has hy
    rw [hyi] at hpos
    refine ⟨{ e with users := e.users - 1 }, ?_, rfl⟩
    rw [htable, hyi, hnum, Function.update_self, Entry.less, if_neg (by omega)]
  · exact h.calls_ok fun _ _ => ⟨rfl, rfl⟩
  · intro y hy
    rcases List.mem_or_eq_of_mem_set hy with hy | rfl
    · exact h.holding y hy
    · rw [hword]
      exact htype

/-- A lock was detached. -/
theorem detach (h : Agreed R table s) {q : Nat} {x : Handle c}
    (hq : s.handles[q]? = some (.live x)) (hk : x.kind ≠ .mem)
    (hsettled : Protocol.Settled (Sys.view
      { s with
        world :=
          { s.world with
            mem := decCount s.world.mem x.id
            os := Release.named (deleteLock R x.kind) x.adr (s.world.mem.objects x.id).dec
              s.world.os }
        handles := s.handles.set q .gone })) :
    Agreed R table
      { s with
        world :=
          { s.world with
            mem := decCount s.world.mem x.id
            os := Release.named (deleteLock R x.kind) x.adr (s.world.mem.objects x.id).dec
              s.world.os }
        handles := s.handles.set q .gone } := by
  have hx : s.Has x := .inl (List.mem_of_getElem? hq)
  have hok := h.handle x hx
  set s' : Sys c σ :=
    { s with
      world :=
        { s.world with
          mem := decCount s.world.mem x.id
          os := Release.named (deleteLock R x.kind) x.adr (s.world.mem.objects x.id).dec
            s.world.os }
      handles := s.handles.set q .gone } with hs'
  have hrefs : 0 < s.view.refs x.id := refs_of_handle (List.mem_of_getElem? hq) rfl
  have hcount : 0 < (s.world.mem.objects x.id).count.toNat := by
    rw [← h.settled.counted x.id] at hrefs
    exact hrefs
  have hrecorded : s.Recorded x.id := .inl hcount
  have hused := used_of_recorded h.settled hrecorded
  obtain ⟨e, he, hadr⟩ := hok.object
  have hentry := h.entry_of_type hrecorded hok.type
  rw [he, Sys.users, if_neg hk] at hentry
  have hobj := fields_dec s.world.mem x.id
  have hnum : s'.num R x.id = s.num R x.id := by
    rw [Sys.num, Sys.num, (hobj x.id).2]
  have hcount' : ∀ j, (s'.world.mem.objects j).count.toNat =
      (s.world.mem.objects j).count.toNat - if j = x.id then 1 else 0 :=
    count_decCount s.world.mem x.id
  have hrec : ∀ j, j ≠ x.id → (s'.Recorded j ↔ s.Recorded j) := by
    intro j hj
    rw [Sys.Recorded, Sys.Recorded, hcount', if_neg hj, Nat.sub_zero]
  have hreci : s'.Recorded x.id ↔ (s.world.mem.objects x.id).dec.count ≠ 0 := by
    rw [Sys.Recorded, hcount', if_pos rfl, ← RegisteredObject.dec_count,
      ne_eq, ← UInt32.toNat_inj, UInt32.toNat_zero, Nat.pos_iff_ne_zero]
    refine ⟨?_, .inl⟩
    rintro (hne | ⟨name, y, hy, hyi⟩)
    · exact hne
    · exact absurd hyi (not_created_of_count h.settled hcount hy)
  have hholders : ∀ j, j ≠ x.id → s'.holders j = s.holders j := by
    intro j hj
    have hset := Tally.countP_set hq (Holding.has j) .gone
    simp only [Holding.has, Tally.toNat_beq, Bool.toNat_false, if_neg hj] at hset
    simp only [Sys.holders, hs']
    omega
  have hhas : ∀ y, s'.Has y → s.Has y := by
    rintro y (hy | hy)
    · rcases List.mem_or_eq_of_mem_set hy with hy | hy
      · exact .inl hy
      · cases hy
    · exact .inr hy
  have htable : table s'.world.os = Function.update (table s.world.os) (s.num R x.id)
      (if (s.world.mem.objects x.id).dec.count = 0 then none else some e) := by
    change table (Release.named _ _ _ _) = _
    unfold Release.named
    split
    · rw [← hadr]
      exact deleteLock_table law hk he hentry
    · rw [← he, Function.update_eq_self]
  refine h.of_slot (i := x.id) hsettled (hnum ▸ htable) ?_ ?_ ?_ ?_ ?_ ?_ ?_ ?_
    (fun _ _ _ _ _ _ => Iff.rfl) ?_ ?_ ?_ ?_ ?_
  · exact fun j _ => hobj j
  · exact fun j _ hu => used_of_dec hu
  · intro j hj hu hn
    exact hj (h.distinct j x.id hu hused (hn.trans hnum))
  · exact fun _ => hnum.symm
  · exact hrec
  · exact hholders
  · intro hi
    rw [if_neg (hreci.mp hi)]
    refine ⟨x.kind, (hobj x.id).1.trans hok.type, ?_⟩
    rw [Sys.users, if_neg hk]
    exact hentry
  · intro hi _
    rw [hreci, not_not] at hi
    rw [if_pos hi]
  · intro _ _ _ _ hx'
    exact absurd hrecorded (not_recorded_of_made h.settled hx')
  · exact fun y hy _ => ⟨hhas y hy, fun _ => rfl⟩
  · intro y hy hyi
    have hi : s'.Recorded x.id := hyi ▸ recorded_of_has hsettled hy
    refine handleOk_mono (h.handle y (hhas y hy)) (hobj y.id).1 ?_ fun _ => rfl
    intro e' he'
    rw [hyi, he] at he'
    cases he'
    refine ⟨e, ?_, rfl⟩
    rw [htable, hyi, hnum, Function.update_self, if_neg (hreci.mp hi)]
  · exact h.calls_ok fun j _ => hobj j
  · intro y hy
    rcases List.mem_or_eq_of_mem_set hy with hy | rfl
    · exact h.holdings_ok (fun j _ => hobj j) y hy
    · trivial

end Agreed

/-! ## Every step -/

section Steps

variable {s s' : Sys c σ} {l : Label} (law : Lawful R table)

theorem orderly_event (hl : Regular R s l) :
    Lts.AllSteps Protocol.step Protocol.Orderly s.view (event R s l) := by
  cases l with
  | reserve _ _ _ _ | record _ | publish _ | abort _ | drop _ | detach _ =>
    exact Lts.allSteps_singleton trivial
  | free _ => trivial
  | create p malloc =>
    simp only [event]
    split
    · split <;> exact Lts.allSteps_singleton (by simp [Protocol.Orderly])
    · trivial
  | lookup k name =>
    refine Lts.allSteps_singleton fun i hi => ?_
    obtain ⟨hr, -, hrefs⟩ := hl i hi
    exact ⟨hr, hrefs⟩
  | attach p malloc =>
    simp only [event]
    split
    · split <;> exact Lts.allSteps_singleton (by rintro x ⟨⟩)
    · trivial

theorem settled_of_step (h : Agreed R table s) (hl : Regular R s l)
    (hs : step R s l = some s') : Protocol.Settled s'.view :=
  Lts.exec_invariant (fun _ _ _ h hl hs => Protocol.settled_step h hl hs) h.settled
    (view_step h.words hs) (orderly_event hl)

include law

/-- The number of the name a call was made with. -/
theorem num_of_tname {i : Slot c} {name : CString}
    (h : (s.world.mem.objects i).tname = truncName name) : s.num R i = R.nam2num name :=
  law.nam2num_congr h

/-- RTAI has no object for a slot whose creator is about to make one. -/
theorem table_of_reserved (h : Agreed R table s) {p : Nat} {k : Kind} {name : CString}
    {size : UInt64} {value : UInt32} {i : Slot c}
    (hp : s.calls[p]? = some (.reserved k name size value i)) :
    s.num R i = R.nam2num name ∧ table s.world.os (R.nam2num name) = none := by
  have hpi : s.view.holds p = some (name, i) := Protocol.holds_of_call (view_call hp)
  have hnum : s.num R i = R.nam2num name :=
    num_of_tname law (h.settled.kept.named p name i hpi)
  refine ⟨hnum, ?_⟩
  rw [← hnum]
  cases he : table s.world.os (s.num R i) with
  | none => rfl
  | some e =>
    obtain ⟨j, hj, hn⟩ := h.owned _ e he
    have hji := h.distinct j i (used_of_owned h.settled hj)
      (h.settled.kept.inUse p name i hpi) hn
    subst hji
    rcases hj with hj | ⟨k', name', size', adr, hj⟩
    · exact absurd hj (not_recorded_of_holds h.settled hp rfl (by rintro _ _ ⟨⟩))
    · obtain ⟨q, hq, hqi⟩ := holds_of_made hj
      have hqp := h.settled.kept.sole q p name' name j hqi hpi
      rw [hqp, hp] at hq
      cases hq

/-- Every regular step keeps the registry and RTAI in agreement. -/
theorem agreed_step (h : Agreed R table s) (hl : Regular R s l) (hs : step R s l = some s') :
    Agreed R table s' := by
  have hsettled := settled_of_step h hl hs
  cases trans_of_step hs with
  | refused hfail | missing hfind =>
    exact h.of_idle law hsettled rfl rfl rfl rfl (sameMade_append rfl s.calls)
      (calls_append h.call trivial)
  | @reserve k name size value i hfind hfree =>
    exact h.reserve law hfree (hl hfind (by rw [hfree]; rfl)) hsettled
  | @createFailed p malloc k name size value i e os hp hnew =>
    obtain ⟨-, hnone⟩ := table_of_reserved law h hp
    have htable : table os = table s.world.os := by
      rcases sysNew_cases law k malloc name size value hnone with
        ⟨e', os', he, ht⟩ | ⟨adr, os', m, he, -⟩
      · rw [hnew] at he
        cases he
        exact ht
      · rw [hnew] at he
        cases he
    exact h.of_idle law hsettled rfl htable rfl rfl
      (sameMade_set hp rfl rfl) (calls_set h.call p trivial)
  | @made p malloc k name size value i adr os hp hnew =>
    obtain ⟨hnum, hnone⟩ := table_of_reserved law h hp
    rcases sysNew_cases law k malloc name size value hnone with
      ⟨e', os', he, -⟩ | ⟨adr', os', m, he, hfits, ht⟩
    · rw [hnew] at he
      cases he
    · rw [hnew] at he
      cases he
      rw [← hnum] at ht
      exact h.made_new hp hfits ht hsettled
  | record hp => exact h.record law hp hsettled
  | publish hp => exact h.publish law hp hsettled
  | @abort p name i hp =>
    have hpi : s.view.holds p = some (name, i) := Protocol.holds_of_call (view_call hp)
    have h0 : (s.world.mem.objects i).count = 0 := (h.settled.refs_zero hpi).1
    have hcount : ∀ j, ((decCount s.world.mem i).objects j).count.toNat =
        (s.world.mem.objects j).count.toNat := by
      intro j
      rw [count_decCount]
      split
      · rename_i hj
        rw [hj, h0]
        rfl
      · rfl
    refine h.of_calls law hsettled rfl rfl rfl
      (sameMade_set hp rfl rfl) (fields_dec s.world.mem i)
      (fun j hj => used_of_dec hj) ?_ ?_
      (calls_set (h.calls_ok fun j _ => fields_dec s.world.mem i j) p trivial)
    · intro j hj
      dsimp only at hj
      rwa [hcount] at hj
    · intro j hj
      refine .inl ?_
      dsimp only
      rwa [hcount]
  | @lookup k name i hfind =>
    obtain ⟨hr, htype, hrefs⟩ := hl i hfind
    obtain ⟨hused, htname, -⟩ := findByName_some hfind
    have hpos : 0 < (s.world.mem.objects i).count.toNat := by
      rcases RegisteredObject.inUse_iff.mp hused with hr' | hpos
      · rw [hr] at hr'
        cases hr'
      · exact hpos
    have hless : (s.world.mem.objects i).count.toNat + 1 < 2 ^ 32 := by
      have hcounted : (s.world.mem.objects i).count.toNat = s.view.refs i := h.settled.counted i
      rw [hcounted]
      exact hrefs
    refine h.of_calls law hsettled rfl rfl rfl (sameMade_append rfl s.calls)
      (fields_inc s.world.mem i) ?_ ?_ ?_ ?_
    · intro j hj
      by_cases hji : j = i
      · rw [hji]
        exact hused
      · rw [Internal.used, incNameCount_objects, Function.update_of_ne hji] at hj
        exact hj
    · intro j hj
      dsimp only at hj
      rw [count_incNameCount hless] at hj
      by_cases hji : j = i
      · rw [hji]
        exact hpos
      · rwa [if_neg hji, Nat.add_zero] at hj
    · intro j hj
      refine .inl ?_
      dsimp only
      rw [count_incNameCount hless]
      omega
    · refine calls_append (h.calls_ok fun j _ => fields_inc s.world.mem i j) ?_
      obtain ⟨ht, hn⟩ := fields_inc s.world.mem i i
      refine ⟨ht.trans htype, ?_⟩
      rw [RegisteredObject.tname, hn]
      exact htname
  | @attachFailed p malloc k name i e os hp hattach =>
    have hok := h.call _ (List.mem_of_getElem? hp)
    have hrecorded : s.Recorded i := recorded_of_refs h.settled
      (refs_of_call (List.mem_of_getElem? hp) (by simp [Call.view]))
    have hentry := h.entry_of_type hrecorded hok.1
    rw [num_of_tname law hok.2] at hentry
    have htable : table os = table s.world.os := by
      rcases sysAttach_cases law k malloc name hentry with
        ⟨e', os', he, ht⟩ | ⟨e', os', -, he, -⟩
      · rw [hattach] at he
        cases he
        exact ht
      · rw [hattach] at he
        cases he
    exact h.of_idle law hsettled rfl htable rfl rfl
      (sameMade_set hp rfl rfl) (calls_set h.call p hok.1)
  | @attached p malloc k name i adr os hp hattach =>
    have hok := h.call _ (List.mem_of_getElem? hp)
    have hrecorded : s.Recorded i := recorded_of_refs h.settled
      (refs_of_call (List.mem_of_getElem? hp) (by simp [Call.view]))
    have hnum := num_of_tname (R := R) law hok.2
    have hentry := h.entry_of_type hrecorded hok.1
    rw [hnum] at hentry
    rcases sysAttach_cases law k malloc name hentry with
      ⟨e', os', he, -⟩ | ⟨e', os', hobj, he, ht⟩
    · rw [hattach] at he
      cases he
    · rw [hattach] at he
      cases he
      rw [← hnum] at hobj ht
      exact h.attached law hp hobj ht hsettled
  | @drop p k i hp =>
    have hreg : k = .mem ∨ 1 < (s.world.mem.objects i).count.toNat := by
      have hreg := hl
      simp only [Regular, hp] at hreg
      exact hreg
    refine h.of_calls law hsettled rfl rfl rfl
      (sameMade_set hp rfl rfl) (fields_dec s.world.mem i)
      (fun j hj => used_of_dec hj) ?_ ?_
      (calls_set (h.calls_ok fun j _ => fields_dec s.world.mem i j) p trivial)
    · intro j hj
      dsimp only at hj
      rw [count_decCount] at hj
      omega
    · intro j hj
      dsimp only
      rw [count_decCount]
      by_cases hji : j = i
      · subst hji
        rcases hreg with rfl | hmany
        · exact .inr (h.call _ (List.mem_of_getElem? hp))
        · rw [if_pos rfl]
          exact .inl (by omega)
      · rw [if_neg hji]
        exact .inl hj
  | free hq hk => exact h.free law hq hk hsettled
  | detach hq hk => exact h.detach law hq hk hsettled
  | deregister hq => exact h.deregister law hq hsettled

/-- Only regular steps do. -/
theorem regular_of_agreed (h : Agreed R table s) (h' : Agreed R table s')
    (hs : step R s l = some s') : Regular R s l := by
  cases trans_of_step hs with
  | createFailed _ _ | made _ _ | record _ | publish _ | abort _ | attachFailed _ _ | attached _ _
  | free _ _ | detach _ _ | deregister _ => trivial
  | @refused k name size value e hfail =>
    intro hfind hfree
    obtain ⟨i, hi⟩ := Option.isSome_iff_exists.mp hfree
    rw [reserveName, hfind, hi] at hfail
    cases hfail
  | missing hfind =>
    intro i hi
    rw [hfind] at hi
    cases hi
  | @reserve k name size value i hfind hfree =>
    intro _ _ j hj hn
    have hji : j ≠ i := ne_of_findFree hfree hj
    refine hji (h'.distinct j i ?_ ?_ ?_)
    · change (reserved s.world.mem i name).used j = true
      rw [reserved_used, Function.update_of_ne hji]
      exact hj
    · change (reserved s.world.mem i name).used i = true
      rw [reserved_used, Function.update_self]
    · have hnew : (reserved s.world.mem i name).objects i = reservedObject name :=
        Function.update_self i _ _
      have hold : (reserved s.world.mem i name).objects j = s.world.mem.objects j :=
        Function.update_of_ne hji _ _
      simp only [Sys.num, hnew, hold]
      exact hn.trans
        (law.nam2num_congr (RegisteredObject.reservedObject_tname name)).symm
  | @lookup k name i hfind =>
    intro j hj
    rw [hfind] at hj
    cases hj
    have htype : (s.world.mem.objects i).type = k.type := by
      have hok := h'.call (.referenced k name i) (List.mem_append_right _ List.mem_cons_self)
      exact (fields_inc s.world.mem i i).1.symm.trans hok.1
    refine ⟨?_, htype, ?_⟩
    · by_contra hr
      rw [Bool.not_eq_false] at hr
      -- the lookup clears the flag while the creator still holds the slot
      obtain ⟨p, name', hp⟩ := (h.settled.owned i).mp hr
      have hcalls : (Sys.view { s with
          world := { s.world with mem := incNameCount s.world.mem i }
          calls := s.calls ++ [.referenced k name i] }).calls =
          s.view.calls ++ [.referenced i] := by
        simp [Sys.view, Call.view]
      have hp' := (Protocol.holds_append_iff hcalls p (name', i)).mpr (.inl hp)
      have hr' := (h'.settled.owned i).mpr ⟨p, name', hp'⟩
      change ((incNameCount s.world.mem i).objects i).reserved = true at hr'
      rw [incNameCount_objects, Function.update_self] at hr'
      cases hr'
    · have hcounted := h'.settled.counted i
      have hrefs := Protocol.refs_append s.view (incNameCount s.world.mem i).plain
        (.referenced i) i
      rw [Protocol.Call.refers_referenced, beq_self_eq_true, Bool.toNat_true] at hrefs
      have hview : (Sys.view { s with
          world := { s.world with mem := incNameCount s.world.mem i }
          calls := s.calls ++ [.referenced k name i] }) =
          { s.view with
            mem := (incNameCount s.world.mem i).plain
            calls := s.view.calls ++ [.referenced i] } := by
        simp [Sys.view, Call.view]
      rw [hview, hrefs] at hcounted
      rw [← hcounted]
      exact UInt32.toNat_lt _
  | @drop p k i hp =>
    simp only [Regular, hp]
    by_contra hnot
    simp only [not_or, not_lt] at hnot
    obtain ⟨hk, hle⟩ := hnot
    have htype := h.call _ (List.mem_of_getElem? hp)
    have hrefs : 0 < s.view.refs i :=
      refs_of_call (List.mem_of_getElem? hp) (by simp [Call.view])
    have hrecorded := recorded_of_refs h.settled hrefs
    have hentry := h.entry_of_type hrecorded htype
    rw [Sys.users, if_neg hk] at hentry
    cases he : table s.world.os (s.num R i) with
    | none =>
      rw [he] at hentry
      exact absurd hentry Nat.one_ne_zero
    | some e =>
      -- the lock stays in RTAI although its slot is given up
      obtain ⟨j, hj, hn⟩ := h'.owned _ e he
      have hsame : ∀ m, Sys.num R { s with
          world := { s.world with mem := decCount s.world.mem i }
          calls := s.calls.set p .done } m = s.num R m := by
        intro m
        rw [Sys.num, Sys.num, (fields_dec s.world.mem i m).2]
      have hji : j = i := by
        refine h.distinct j i (used_of_dec (used_of_owned h'.settled hj))
          (used_of_recorded h.settled hrecorded) ?_
        rw [← hsame j, hn]
      subst hji
      have hpos : 0 < (s.world.mem.objects j).count.toNat := by
        have hcounted : (s.world.mem.objects j).count.toNat = s.view.refs j :=
          h.settled.counted j
        rw [hcounted]
        exact hrefs
      rcases hj with (hj | ⟨name, y, hy, hyj⟩) | ⟨k', name, size, adr, hy⟩
      · dsimp only at hj
        rw [count_decCount, if_pos rfl] at hj
        omega
      · rcases List.mem_or_eq_of_mem_set hy with hy | hy
        · exact not_created_of_count h.settled hpos hy hyj
        · cases hy
      · rcases List.mem_or_eq_of_mem_set hy with hy | hy
        · exact not_recorded_of_made h.settled hy hrecorded
        · cases hy

end Steps

/-! ## Runs -/

theorem view_init {g : Internal c} (hg : g.initialized = false) (os : σ) (word : Nat → Slot c) :
    (Sys.init g os word).view = Protocol.Sys.init g := by
  simp only [Sys.view, Sys.init, Protocol.Sys.init, List.map_nil, registryInit, hg]
  rfl

theorem agreed_init {g : Internal c} (hg : g.initialized = false) {os : σ}
    (hos : table os = fun _ => none) (word : Nat → Slot c) :
    Agreed R table (Sys.init g os word) := by
  have hobj : ∀ i, (Sys.init g os word).world.mem.objects i = .zero := by
    intro i
    simp [Sys.init, registryInit, hg]
  have hrec : ∀ i, ¬ (Sys.init g os word).Recorded i := by
    rintro i (hpos | ⟨name, y, hy, -⟩)
    · rw [hobj] at hpos
      exact absurd hpos (by decide)
    · cases hy
  refine ⟨?_, ?_, ?_, ?_, ?_, ?_, ?_, ?_⟩
  · rw [view_init hg]
    exact Protocol.settled_init hg
  · intro i j hi
    rw [Internal.used, hobj] at hi
    cases hi
  · intro i hi
    exact absurd hi (hrec i)
  · intro n e he
    rw [show (Sys.init g os word).world.os = os from rfl, hos] at he
    cases he
  · intro k name size i adr hx
    cases hx
  · rintro y (hy | ⟨name, hy⟩)
    · cases hy
    · cases hy
  · intro call hcall
    cases hcall
  · intro y hy
    cases hy

variable {g : Internal c} {os : σ} {word : Nat → Slot c} {ls : List Label} {s : Sys c σ}

/-- **The registry and RTAI agree exactly in regular runs.** From an initialised registry and
no named objects, they agree in every state of a run if and only if no step creates under a
number in use, looks up a name that is only reserved or asks for another kind, wraps a count, or
gives up the last reference of a lock on the error path of an attach. -/
theorem rtai_agreed_iff (law : Lawful R table) (hg : g.initialized = false)
    (hos : table os = fun _ => none) (hrun : Lts.exec (step R) (Sys.init g os word) ls = some s) :
    Lts.AllStates (step R) (Agreed R table) (Sys.init g os word) ls ↔
      Lts.AllSteps (step R) (Regular R) (Sys.init g os word) ls := by
  apply Lts.allStates_iff (I := Agreed R table) (fun _ h => h) _ _
    (agreed_init hg hos word) hrun
  · intro s l t h hs hl
    exact agreed_step law h hl hs
  · intro s l t h hs hl h'
    exact hl (regular_of_agreed law h h' hs)

theorem agreed_exec (law : Lawful R table) (hg : g.initialized = false)
    (hos : table os = fun _ => none) (hrun : Lts.exec (step R) (Sys.init g os word) ls = some s)
    (hall : Lts.AllSteps (step R) (Regular R) (Sys.init g os word) ls) : Agreed R table s :=
  Lts.exec_invariant (fun _ _ _ h hl hs => agreed_step law h hl hs) (agreed_init hg hos word)
    hrun hall

/-- A segment with two users, a creator that fails and a mutex with two handles. -/
theorem rtai_agreed_iff_run :
    let ls : List Label := [.reserve .mem (.ofBytes [65]) 10 0, .reserve .sem (.ofBytes [66]) 0 3,
      .create 0 false, .record 0, .publish 0, .lookup .mem (.ofBytes [65]), .create 1 true,
      .attach 2 false, .abort 1, .free 0, .detach 0, .reserve .mutex (.ofBytes [66]) 0 0,
      .create 3 false, .record 3, .publish 3, .lookup .mutex (.ofBytes [66]), .attach 4 false,
      .detach 2]
    let init : Sys .two Simple.State := Sys.init (.zero .two) (fun _ => none) fun _ => 0
    Lts.AllStates (step Simple.services) (Agreed Simple.services Simple.table) init ls := by
  intro ls init
  have hsome : (Lts.exec (step Simple.services) init ls).isSome = true := by decide
  obtain ⟨s, hs⟩ := Option.isSome_iff_exists.mp hsome
  exact (rtai_agreed_iff Simple.lawful rfl rfl hs).mpr (by decide)

/-- **Objects and slots belong together.** In every regular run, whoever has an object finds it
under the number of its slot's name, at the address of the handle and made as its kind; RTAI
counts exactly the holders of a segment and one user of a lock; objects of different slots have
different addresses; and RTAI has objects under the numbers of slots in use only. -/
theorem rtai_objects_agree (law : Lawful R table) (hg : g.initialized = false)
    (hos : table os = fun _ => none) (hrun : Lts.exec (step R) (Sys.init g os word) ls = some s)
    (hall : Lts.AllSteps (step R) (Regular R) (Sys.init g os word) ls) :
    (∀ x, s.Has x → ∃ e, table s.world.os (s.num R x.id) = some e ∧ e.adr = x.adr ∧
      Fits x.kind e.made ∧ e.users = (if x.kind = .mem then s.holders x.id else 1) ∧
      (x.kind = .mem → s.world.word x.adr = x.id)) ∧
    (∀ x y, s.Has x → s.Has y → x.adr = y.adr → x.id = y.id) ∧
    ∀ n e, table s.world.os n = some e → ∃ i, s.world.mem.used i = true ∧ s.num R i = n := by
  have h := agreed_exec law hg hos hrun hall
  refine ⟨?_, ?_, ?_⟩
  · intro x hx
    have hok := h.handle x hx
    obtain ⟨e, he, hadr⟩ := hok.object
    have hentry := h.entry_of_type (recorded_of_has h.settled hx) hok.type
    rw [he] at hentry
    exact ⟨e, he, hadr, hentry.1, hentry.2, hok.word⟩
  · intro x y hx hy hxy
    obtain ⟨e, he, hadr⟩ := (h.handle x hx).object
    obtain ⟨e', he', hadr'⟩ := (h.handle y hy).object
    have hn := law.adr_inj he he' (hadr.trans (hxy.trans hadr'.symm))
    exact h.distinct x.id y.id (used_of_recorded h.settled (recorded_of_has h.settled hx))
      (used_of_recorded h.settled (recorded_of_has h.settled hy)) hn
  · intro n e he
    obtain ⟨i, hi, hn⟩ := h.owned n e he
    exact ⟨i, used_of_owned h.settled hi, hn⟩

/-- A segment and a mutex, with one and two handles. -/
theorem rtai_objects_agree_run :
    let ls : List Label := [.reserve .mem (.ofBytes [65]) 10 0, .create 0 false, .record 0,
      .publish 0, .reserve .mutex (.ofBytes [66]) 0 0, .create 1 false, .record 1, .publish 1,
      .lookup .mutex (.ofBytes [66]), .attach 2 false]
    let init : Sys .two Simple.State := Sys.init (.zero .two) (fun _ => none) fun _ => 0
    ∃ s, Lts.exec (step Simple.services) init ls = some s ∧ s.handles.length = 3 ∧
      ∀ x, s.Has x → ∃ e, Simple.table s.world.os (s.num Simple.services x.id) = some e ∧
        e.adr = x.adr := by
  intro ls init
  have hrun : (Lts.exec (step Simple.services) init ls).map (fun s => s.handles.length) =
      some 3 := by decide
  obtain ⟨s, hs, hlen⟩ := Option.map_eq_some_iff.mp hrun
  have h := rtai_objects_agree Simple.lawful rfl rfl hs (by decide)
  refine ⟨s, hs, hlen, fun x hx => ?_⟩
  obtain ⟨e, he, hadr, -⟩ := h.1 x hx
  exact ⟨e, he, hadr⟩

/-- **Nothing is left behind.** When all calls of a regular run are done and all handles are
detached, RTAI has no named object and the registry no slot in use. -/
theorem rtai_all_released (law : Lawful R table) (hg : g.initialized = false)
    (hos : table os = fun _ => none) (hrun : Lts.exec (step R) (Sys.init g os word) ls = some s)
    (hall : Lts.AllSteps (step R) (Regular R) (Sys.init g os word) ls)
    (hcalls : ∀ call ∈ s.calls, call = .done) (hhandles : ∀ x ∈ s.handles, x = .gone) :
    table s.world.os = (fun _ => none) ∧ ∀ i, s.world.mem.used i = false := by
  have h := agreed_exec law hg hos hrun hall
  have hquiet : s.view.Quiet := by
    constructor
    · intro call hcall
      obtain ⟨call', hc, rfl⟩ := List.mem_map.mp hcall
      rw [hcalls call' hc]
      rfl
    · intro x hx
      obtain ⟨x', hx', rfl⟩ := List.mem_map.mp hx
      rw [hhandles x' hx']
      rfl
  have hunused := (h.settled.empty hquiet).1
  refine ⟨?_, hunused⟩
  funext n
  cases he : table s.world.os n with
  | none => rfl
  | some e =>
    obtain ⟨i, hi, -⟩ := h.owned n e he
    have hu := used_of_owned h.settled hi
    rw [show s.world.mem.used i = s.view.mem.used i from rfl, hunused i] at hu
    cases hu

/-- Two processes share a segment; both give it back before either deregisters. -/
theorem rtai_all_released_run :
    let ls : List Label := [.reserve .mem (.ofBytes [65]) 10 0, .create 0 false, .record 0,
      .publish 0, .lookup .mem (.ofBytes [65]), .attach 1 false, .free 0, .free 1, .detach 1,
      .detach 0]
    let init : Sys .two Simple.State := Sys.init (.zero .two) (fun _ => none) fun _ => 0
    ∃ s, Lts.exec (step Simple.services) init ls = some s ∧
      Simple.table s.world.os = fun _ => none := by
  intro ls init
  have hrun : (Lts.exec (step Simple.services) init ls).map (fun s =>
      (s.calls.all fun | .done => true | _ => false,
        s.handles.all fun | .gone => true | _ => false)) = some (true, true) := by decide
  obtain ⟨s, hs, hobs⟩ := Option.map_eq_some_iff.mp hrun
  simp only [Prod.mk.injEq, List.all_eq_true] at hobs
  refine ⟨s, hs, (rtai_all_released Simple.lawful rfl rfl hs (by decide) ?_ ?_).1⟩
  · intro call hcall
    have hc := hobs.1 call hcall
    split at hc
    · rfl
    · cases hc
  · intro x hx
    have hx' := hobs.2 x hx
    split at hx'
    · rfl
    · cases hx'

/-- A regular run, seen by the protocol. -/
theorem view_exec (law : Lawful R table) {s s' : Sys c σ} {ls : List Label}
    (h : Agreed R table s) (hrun : Lts.exec (step R) s ls = some s')
    (hall : Lts.AllSteps (step R) (Regular R) s ls) :
    Lts.exec Protocol.step s.view (Lts.trace (step R) (event R) s ls).flatten = some s'.view ∧
      Lts.AllSteps Protocol.step Protocol.Orderly s.view
        (Lts.trace (step R) (event R) s ls).flatten := by
  induction ls generalizing s with
  | nil =>
    cases hrun
    exact ⟨rfl, trivial⟩
  | cons l ls ih =>
    obtain ⟨hl, hrest⟩ := hall
    rw [Lts.exec] at hrun
    cases hs : step R s l with
    | none =>
      rw [hs] at hrun
      cases hrun
    | some u =>
      rw [hs] at hrun hrest
      obtain ⟨hexec, horderly⟩ := ih (agreed_step law h hl hs) hrun hrest
      have hview := view_step h.words hs
      simp only [Lts.trace, hs, List.flatten_cons]
      refine ⟨?_, ?_⟩
      · rw [Lts.exec_append hview]
        exact hexec
      · refine (orderly_event hl).append fun t ht => ?_
        rw [hview] at ht
        cases ht
        exact horderly

/-- **Refinement.** Every regular run of processes on RTAI is, step by step, an orderly run of
the protocol from the same registry, up to the fields of slots that the registry does not look
at. -/
theorem rtai_refines_protocol (law : Lawful R table) (hg : g.initialized = false)
    (hos : table os = fun _ => none) (hrun : Lts.exec (step R) (Sys.init g os word) ls = some s)
    (hall : Lts.AllSteps (step R) (Regular R) (Sys.init g os word) ls) :
    let ks := (Lts.trace (step R) (event R) (Sys.init g os word) ls).flatten
    Lts.exec Protocol.step (Protocol.Sys.init g) ks = some s.view ∧
      Lts.AllSteps Protocol.step Protocol.Orderly (Protocol.Sys.init g) ks := by
  have hview := view_exec law (agreed_init hg hos word) hrun hall
  rw [view_init hg] at hview
  exact hview

/-- A memory handle that is given back is no step of the protocol. -/
theorem rtai_refines_protocol_run :
    let ls : List Label := [.reserve .mem (.ofBytes [65]) 10 0, .create 0 false, .record 0,
      .publish 0, .free 0, .detach 0]
    let init : Sys .two Simple.State := Sys.init (.zero .two) (fun _ => none) fun _ => 0
    let ks := (Lts.trace (step Simple.services) (event Simple.services) init ls).flatten
    ks.length = 5 ∧ ∃ s : Sys .two Simple.State,
      Lts.exec Protocol.step (Protocol.Sys.init (.zero .two)) ks = some s.view := by
  intro ls init ks
  have hsome : (Lts.exec (step Simple.services) init ls).isSome = true := by decide
  obtain ⟨s, hs⟩ := Option.isSome_iff_exists.mp hsome
  have h := rtai_refines_protocol Simple.lawful rfl rfl hs (by decide)
  exact ⟨by decide, s, h.1⟩

end Urt.Rtai
