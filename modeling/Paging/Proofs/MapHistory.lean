import Paging.Proofs.TableCount
/-!
# Mapping over a history of requests

A space made by `newSpace` and then given mapping requests one after the other, each of which
returned, is a space of a history (`Machine.Mapped`). Each request keeps the space live, and one
that did not meet the allocator's refusal of a table keeps every pointer of the tree leading to a
leaf (`LiveSpace.map_step`); so every space of a history is live, and every pointer of its tree
leads to a leaf while no request has met that refusal (`Mapped.live`).

A further request with read, write or execute permission whose range `checkRange` accepts
(`map_keeps_valid_entries_and_detects_leaves`):

* changes no entry that was valid before it, whatever it ends in: the tree grows;
* returns success only if no page of its range had a leaf before it;
* halts only if some page of its range had a leaf before it, when no earlier request met the
  allocator's refusal of a table.

So, with enough frames, a request halts exactly when its range meets a page mapped before.

A run of a space interleaves such requests with the requests and returns of the allocator's other
clients (`SpaceRun`); along every run the space owns its frames as `OwnsFrames` describes
(`space_frames_owned_and_released`).
-/

namespace Paging

open FrameAllocator Run

namespace Machine

/-- A request to map the pages `[vpn, vpn + n)` onto the frames from `ppn` with `flags`, and what
the call returned. -/
structure MapRequest where
  vpn : VirtPage
  ppn : PhysPage
  n : UInt64
  flags : Flags
  res : Except Fault Unit

/-- The request returned the allocator's refusal of a table. -/
def MapRequest.OutOfFrames (q : MapRequest) : Prop :=
  ∃ f, q.res = .error f ∧ f.component = .frames

/-- The space `r` was made by `newSpace` over the allocator `a`, whose other clients hold `held`,
and then given the requests `reqs`, the oldest first, each of which returned. -/
inductive Mapped (M : Mode) (a : AllocatorRef) (r : SpaceRef) (held : List PhysPage) :
    Machine → List MapRequest → Prop
  | new {m m' : Machine} : a.index < m.allocators.size → Accounts (m.cellAt a).frames held →
      (m.cellAt a).frames.stop.toNat ≤ 2 ^ 44 → (newSpace M a).run m = .ok (.ok r) m' →
      Mapped M a r held m' []
  | map {m m' : Machine} {reqs : List MapRequest} (q : MapRequest) : Mapped M a r held m reqs →
      (map r q.vpn q.ppn q.n q.flags).run m = .ok q.res m' → Mapped M a r held m' (reqs ++ [q])

variable {M : Mode} {a : AllocatorRef} {r : SpaceRef} {held : List PhysPage} {m : Machine}

/-- A mapping request on a live space that returns keeps it live. Unless it returned the
allocator's refusal of a table, it keeps every pointer of the tree leading to a leaf. -/
theorem LiveSpace.map_step (hM : M.Sound) {root : TableNode} {nodes : List TableNode}
    (hl : m.LiveSpace M a r held root nodes) {vpn : VirtPage} {ppn : PhysPage} {n : UInt64}
    {flags : Flags} {res : Except Fault Unit} {m' : Machine}
    (hrun : (map r vpn ppn n flags).run m = .ok res m') :
    ∃ nodes', m'.LiveSpace M a r held root nodes' ∧
      ((∀ f, res = .error f → f.component ≠ .frames) → M.Populated m.memory (root :: nodes) →
        M.Populated m'.memory (root :: nodes')) := by
  rcases hl.map_returns hM hrun with ⟨f, -, -, rfl⟩ | ⟨hc, segs, hplan, -, ⟨nodes', hl', -⟩, hok, herr⟩
  · -- a refused range changes nothing
    exact ⟨nodes, hl, fun _ hpop => hpop⟩
  · cases res with
    | error f => exact ⟨nodes', hl', fun hno => absurd (herr f rfl).1 (hno f rfl)⟩
    | ok u =>
      -- every page of the request is done, so no pointer written leads nowhere
      obtain ⟨nodes'', ⟨hl'', -⟩, hp⟩ := hok rfl
      exact ⟨nodes'', hl'', fun _ hpop => hp.populated hM hpop fun _ hw => hw⟩

/-- Every space of a history is live; while no request has met the allocator's refusal of a
table, every pointer of its tree leads to a leaf. -/
theorem Mapped.live (hM : M.Sound) {reqs : List MapRequest} (h : Mapped M a r held m reqs) :
    ∃ root nodes, m.LiveSpace M a r held root nodes ∧
      ((∀ q ∈ reqs, ¬ q.OutOfFrames) → M.Populated m.memory (root :: nodes)) := by
  induction h with
  | new hlt hacc hstop hrun =>
    obtain ⟨root, hf⟩ := FreshSpace.new hM hlt hacc hstop hrun
    exact ⟨root, [], hf.live, fun _ => hf.populated⟩
  | map q _ hrun ih =>
    obtain ⟨root, nodes, hl, hpop⟩ := ih
    obtain ⟨nodes', hl', hstep⟩ := hl.map_step hM hrun
    refine ⟨root, nodes', hl', fun hclean => hstep ?_ (hpop fun q' hq' => ?_)⟩
    · exact fun f hf hfr =>
        hclean q (List.mem_append_right _ (List.mem_singleton_self q)) ⟨f, hf, hfr⟩
    · exact hclean q' (List.mem_append_left _ hq')

/-- A mapping request with read, write or execute permission, whose range `checkRange` accepts,
on a space of a history. Whatever it ends in, the tree grows, so that no entry valid before is
changed. It returns success only if no page of its range had a leaf before. When no earlier
request met the allocator's refusal of a table, it halts only if some page of its range had a
leaf before. -/
theorem map_keeps_valid_entries_and_detects_leaves (hM : M.Sound) {reqs : List MapRequest}
    (h : Mapped M a r held m reqs) {vpn : VirtPage} {ppn : PhysPage} {n : UInt64} {flags : Flags}
    (hflags : flags.hasAny .rwx = true) (hc : M.checkRange vpn ppn n = .ok ()) :
    ∃ root nodes, m.LiveSpace M a r held root nodes ∧
      (∀ res m', (map r vpn ppn n flags).run m = .ok res m' →
        (∃ nodes', M.Grows m.memory (root :: nodes) m'.memory (root :: nodes')) ∧
        (res = .ok () → ∀ v : VirtPage, vpn.toNat ≤ v.toNat → v.toNat < vpn.toNat + n.toNat →
          (findEntry r v).run m = .ok (.error .invalidEntry) m)) ∧
      (∀ e m', (map r vpn ppn n flags).run m = .error e m' →
        (∃ nodes', M.Grows m.memory (root :: nodes) m'.memory (root :: nodes')) ∧
        ((∀ q ∈ reqs, ¬ q.OutOfFrames) → ∃ v : VirtPage, vpn.toNat ≤ v.toNat ∧
          v.toNat < vpn.toNat + n.toNat ∧ ∃ e L, (findEntry r v).run m = .ok (.ok (e, L)) m)) := by
  obtain ⟨root, nodes, hl, hpop⟩ := h.live hM
  obtain ⟨segs, hs, hplan⟩ := hM.segments_plan hc
  have hspec := map_run_progress hM hl hflags hc hs hplan
  have hlookup := hl.tree.lookup_eq_ok_iff hM hl.root_level hl.root_block
  refine ⟨root, nodes, hl, fun res m' hrun => ?_, fun e m' hrun => ?_⟩
  · rw [hrun] at hspec
    obtain ⟨⟨nodes', -, hg⟩, hok, -⟩ := hspec
    refine ⟨⟨nodes', hg⟩, fun hres v hv₁ hv₂ => ?_⟩
    obtain ⟨_, -, hp⟩ := hok hres
    -- the page is done, and a page done had no leaf before the call
    have hfree := hp.free v ((hplan.holds v.toNat).2 ⟨hv₁, hv₂⟩)
    rw [hl.findEntry_run hM]
    cases hlk : M.lookup m.memory root.box.ppn v with
    | ok p => exact absurd ((hlookup v p.1 p.2).1 hlk) (hfree p.1 p.2)
    | error f => rw [hl.tree.lookup_eq_error hM hl.root_level hl.root_block v hlk]
  · rw [hrun] at hspec
    obtain ⟨⟨nodes', -, hg⟩, hclash⟩ := hspec
    refine ⟨⟨nodes', hg⟩, fun hclean => ?_⟩
    obtain ⟨w, hw, e, L, hleaf⟩ := hclash (hpop hclean)
    obtain ⟨hw₁, hw₂⟩ := (hplan.holds w.toNat).1 hw
    exact ⟨w, hw₁, hw₂, e, L, by rw [hl.findEntry_run hM, (hlookup w e L).2 hleaf]⟩

/-- On a space of mode Sv39 over 256 frames that has mapped the pages `[0x100, 0x300)`, a second
request for the pages `[0x2f0, 0x310)`, which meets the first, changes no entry that was valid, and
does not return success: the page `0x2f0` has a leaf. If it halts, a page of its range had a leaf
before it. -/
theorem map_detects_overlap_after_one_request :
    ∃ m' m'', (newSpace .sv39 ⟨0⟩).run
        { allocators := #[⟨FrameAllocator.new 0x80000 0x80100, #[]⟩] } = .ok (.ok ⟨0⟩) m' ∧
      (map ⟨0⟩ 0x100 0x80100 0x200 Flags.rwx).run m' = .ok (.ok ()) m'' ∧
      ∃ root nodes, m''.LiveSpace .sv39 ⟨0⟩ ⟨0⟩ [] root nodes ∧
        (∀ res m''', (map ⟨0⟩ 0x2f0 0x90000 0x20 Flags.rwx).run m'' = .ok res m''' →
          (∃ nodes', Mode.sv39.Grows m''.memory (root :: nodes) m'''.memory (root :: nodes')) ∧
          (res = .ok () → ∀ v : VirtPage, 0x2f0 ≤ v.toNat → v.toNat < 0x2f0 + 0x20 →
            (findEntry ⟨0⟩ v).run m'' = .ok (.error .invalidEntry) m'') ∧
          res ≠ .ok ()) ∧
        (∀ e m''', (map ⟨0⟩ 0x2f0 0x90000 0x20 Flags.rwx).run m'' = .error e m''' →
          (∃ nodes', Mode.sv39.Grows m''.memory (root :: nodes) m'''.memory (root :: nodes')) ∧
          ∃ v : VirtPage, 0x2f0 ≤ v.toNat ∧ v.toNat < 0x2f0 + 0x20 ∧
            ∃ e L, (findEntry ⟨0⟩ v).run m'' = .ok (.ok (e, L)) m'') := by
  have h₀ : (newSpace .sv39 ⟨0⟩).run
      { allocators := #[⟨FrameAllocator.new 0x80000 0x80100, #[]⟩] } = .ok (.ok ⟨0⟩) _ := rfl
  obtain ⟨root₀, hf⟩ := FreshSpace.new Mode.sound_sv39 (a := ⟨0⟩)
    (m := { allocators := #[⟨FrameAllocator.new 0x80000 0x80100, #[]⟩] }) (by decide)
    (Accounts.new _ _) (by decide) h₀
  have hrwx : Flags.rwx.hasAny .rwx = true := by decide
  obtain ⟨m'', -, hrun, -⟩ := hf.map_sv39_ok hrwx
    (by rfl : Mode.sv39.checkRange 0x100 0x80100 0x200 = .ok ()) (by decide +kernel)
  -- the first request maps the page `0x2f0`
  obtain ⟨res₁, m₁, hrun₁, -, -, -, hexact⟩ := hf.map_spec Mode.sound_sv39 0x100 0x80100 0x200 hrwx
  rw [hrun] at hrun₁
  injection hrun₁ with hres₁ hm₁
  subst hm₁
  obtain ⟨L, -, hleaf⟩ := ((hexact hres₁.symm).2 0x2f0 (by decide)).1 (by decide)
  have hmapped : Mapped .sv39 ⟨0⟩ ⟨0⟩ [] m'' [⟨0x100, 0x80100, 0x200, Flags.rwx, .ok ()⟩] :=
    .map _ (.new (by decide) (by exact Accounts.new _ _) (by decide) h₀) hrun
  obtain ⟨root, nodes, hl, hok, herr⟩ :=
    map_keeps_valid_entries_and_detects_leaves Mode.sound_sv39 hmapped hrwx
      (by rfl : Mode.sv39.checkRange 0x2f0 0x90000 0x20 = .ok ())
  refine ⟨_, m'', h₀, hrun, root, nodes, hl, fun res m''' h => ?_, fun e m''' h => ?_⟩
  · obtain ⟨hgrow, hfree⟩ := hok res m''' h
    refine ⟨hgrow, hfree, fun hres => ?_⟩
    have hinv := hfree hres 0x2f0 (by decide) (by decide)
    rw [hleaf] at hinv
    cases hinv
  · obtain ⟨hgrow, hclash⟩ := herr e m''' h
    refine ⟨hgrow, hclash fun q hq hout => ?_⟩
    obtain ⟨f, hf', -⟩ := hout
    rw [List.mem_singleton] at hq
    subst hq
    cases hf'

/-- Along every run from the making of a space over an allocator, with maps on the space that
return and requests and returns of the allocator's other clients, the space owns its frames as
`OwnsFrames` describes: its root is a top-level table, the pointers that walks from the root meet
lead one to one onto the boxes it lists below the root, it counts the frames it holds, and these
and the frames of the other clients are just what the allocator has handed out; releasing it gives
each of its frames back once, the tables the most recent first and then the root, and leaves a
space that keeps nothing and that halts every use. -/
theorem space_frames_owned_and_released (hM : M.Sound) {m : Machine} (h : SpaceRun M a r m held) :
    ∃ root, m.OwnsFrames M a r held root := by
  obtain ⟨root, nodes, hl⟩ := h.live hM
  exact ⟨root.box, hl.ownsFrames hM⟩

/-- A space of mode Sv39 over 256 frames, whose allocator then hands the frame `0x80001` to another
client, maps the pages `[0x100, 0x300)` with three tables below its root, and owns its frames. -/
theorem space_owns_frames_after_one_request :
    ∃ m₁ m₂ m₃, (newSpace .sv39 ⟨0⟩).run
        { allocators := #[⟨FrameAllocator.new 0x80000 0x80100, #[]⟩] } = .ok (.ok ⟨0⟩) m₁ ∧
      (allocFrame ⟨0⟩).run m₁ = .ok (.ok 0x80001) m₂ ∧
      (map ⟨0⟩ 0x100 0x80100 0x200 Flags.rwx).run m₂ = .ok (.ok ()) m₃ ∧
      (m₃.spaceAt ⟨0⟩).tables.size = 3 ∧
      ∃ root, m₃.OwnsFrames .sv39 ⟨0⟩ ⟨0⟩ [0x80001] root := by
  have h₀ : (newSpace .sv39 ⟨0⟩).run
      { allocators := #[⟨FrameAllocator.new 0x80000 0x80100, #[]⟩] } = .ok (.ok ⟨0⟩) _ := rfl
  obtain ⟨root₀, hf⟩ := FreshSpace.new Mode.sound_sv39 (a := ⟨0⟩)
    (m := { allocators := #[⟨FrameAllocator.new 0x80000 0x80100, #[]⟩] }) (by decide)
    (Accounts.new _ _) (by decide) h₀
  -- the frame after the root goes to the other client
  obtain ⟨m₃, nodes, hrun, hl, hlen⟩ := (hf.allocFrame (p := 0x80001) rfl).map_sv39_ok
    (by decide : Flags.rwx.hasAny .rwx = true)
    (by rfl : Mode.sv39.checkRange 0x100 0x80100 0x200 = .ok ()) (by decide +kernel)
  have hsize : (m₃.spaceAt ⟨0⟩).tables.size = 3 := by
    rw [← Array.length_toList, hl.tables, List.length_map, hlen]
    decide +kernel
  exact ⟨_, _, m₃, h₀, rfl, hrun, hsize, space_frames_owned_and_released Mode.sound_sv39
    (.map (.allocFrame (.new (by decide) (by exact Accounts.new _ _) (by decide) h₀) rfl) hrun)⟩

end Machine

end Paging
