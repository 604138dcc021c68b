import Paging.Proofs.MapHistory
/-!
# What the lookups of a space say of its requests

Over a history of mapping requests (`Machine.Mapped`), the leaves of the space answer to the
requests (`Machine.Refines`): a page with a leaf lies in the range of a request whose leaf it is,
and every page of a request that returned success has that request's leaf. The leaf of a request
at level `L` for a page `w` (`MapRequest.Describes`) carries the request's flags and the valid
flag, names a frame aligned to the blocks of `L`, and puts `w` as far from the request's first
frame as `w` lies from its first page. The leaves that a call writes are such leaves
(`MapCall.describes_leaf`), and so each request keeps the answer (`LiveSpace.map_refines`).

Hence the lookup of a page, after any history (`findEntry_answers_requests`):

* is the lookup of the page below the limit of the mode with the same low bits;
* never runs off the lowest level;
* meets an invalid entry when no request covers the page;
* finds the leaf of a request that returned success and covers the page;
* meets an invalid entry, or finds the leaf of one of them, when only requests that met the
  allocator's refusal of a table cover the page.
-/

namespace Paging

open FrameAllocator Run

namespace Machine

namespace MapRequest

/-- The request covers the page `w`. -/
def Covers (q : MapRequest) (w : VirtPage) : Prop :=
  q.vpn.toNat ≤ w.toNat ∧ w.toNat < q.vpn.toNat + q.n.toNat

/-- The entry `e`, found at level `L` for the page `w`, maps it as the request asks: with the
request's flags and the valid flag, onto a frame aligned to the blocks of `L`, the page landing
as far from the request's first frame as it lies from the request's first page. -/
def Describes (q : MapRequest) (M : Mode) (w : VirtPage) (e : Entry) (L : Level) : Prop :=
  e.flags = q.flags ||| .valid ∧ 2 ^ M.levelShift L ∣ e.ppn.toNat ∧
    e.ppn.toNat + w.toNat % 2 ^ M.levelShift L = q.ppn.toNat + (w.toNat - q.vpn.toNat)

end MapRequest

end Machine

namespace Mode.MapCall

variable {M : Mode} {a : AllocatorRef}

/-- The request of the call, with what it returned. -/
def request (c : M.MapCall a) (res : Except Fault Unit) : Machine.MapRequest :=
  ⟨c.vpn, c.ppn, c.n, c.flags, res⟩

/-- The leaf that the call writes for a page of one of its segments maps the page as its request
asks, when the frames of the request can be named by an entry. -/
theorem describes_leaf (hM : M.Sound) (c : M.MapCall a) (hppn : c.ppn.toNat + c.n.toNat ≤ 2 ^ 44)
    (res : Except Fault Unit) {s : Segment} (hs : s ∈ c.segs) {w : VirtPage}
    (hw : s.Holds w.toNat) : (c.request res).Describes M w (c.leaf s.level w) s.level := by
  have hk := hM.levelShift_add_lt (c.plan.level_le s hs)
  have hB : 0 < 2 ^ M.levelShift s.level := Nat.two_pow_pos _
  have hb := c.plan.blocked s hs
  have hoff := c.plan.offset s hs
  have hstart := ((c.plan.holds s.start.toNat).1 ⟨s, hs, le_rfl, hb.1⟩).1
  have hin := (c.plan.holds w.toNat).1 ⟨s, hs, hw⟩
  -- the block of `w` starts inside the segment, so at or after the request's first page
  have hA := le_alignDown_of_dvd hB hb.2.1 hw.1
  have hAw := Nat.div_add_mod w.toNat (2 ^ M.levelShift s.level)
  have hdown := Word.toNat_alignDown_pow2 w (k := M.levelShift s.level) (by omega)
  have hppn' : (c.ppn + (Word.alignDown w (Word.pow2 (M.levelShift s.level)) - c.vpn)).toNat =
      c.ppn.toNat + 2 ^ M.levelShift s.level * (w.toNat / 2 ^ M.levelShift s.level) -
        c.vpn.toNat := by
    have hlt : c.ppn.toNat + (2 ^ M.levelShift s.level * (w.toNat / 2 ^ M.levelShift s.level) -
        c.vpn.toNat) < 2 ^ 64 := by omega
    rw [UInt64.toNat_add, UInt64.toNat_sub_of_le _ _ (UInt64.le_iff_toNat_le.2 (by omega)), hdown,
      Nat.mod_eq_of_lt hlt]
    omega
  have hleaf : (c.leaf s.level w).ppn.toNat =
      c.ppn.toNat + 2 ^ M.levelShift s.level * (w.toNat / 2 ^ M.levelShift s.level) -
        c.vpn.toNat := by
    rw [leaf, Entry.mapping, Entry.ppn_ofPPN _ (by omega), hppn']
  refine ⟨Entry.flags_mapping _ _, ?_, ?_⟩
  · -- the request's first page and frame lie alike in the blocks of the level
    have hsplit : c.ppn.toNat + 2 ^ M.levelShift s.level * (w.toNat / 2 ^ M.levelShift s.level) -
        c.vpn.toNat = c.ppn.toNat - c.ppn.toNat % 2 ^ M.levelShift s.level +
          2 ^ M.levelShift s.level * (w.toNat / 2 ^ M.levelShift s.level) -
            (c.vpn.toNat - c.vpn.toNat % 2 ^ M.levelShift s.level) := by
      have := Nat.mod_le c.ppn.toNat (2 ^ M.levelShift s.level)
      have := Nat.mod_le c.vpn.toNat (2 ^ M.levelShift s.level)
      omega
    rw [hleaf, hsplit]
    exact Nat.dvd_sub (Nat.dvd_add (Nat.dvd_sub_mod _) (Nat.dvd_mul_right _ _))
      (Nat.dvd_sub_mod _)
  · rw [hleaf]
    simp only [request]
    omega

end Mode.MapCall

namespace Machine

variable {M : Mode} {a : AllocatorRef} {r : SpaceRef} {held : List PhysPage} {m : Machine}

/-- The leaves of the tree `nodes` in `mem` answer to the requests `reqs`. -/
structure Refines (M : Mode) (mem : Memory) (nodes : List TableNode) (reqs : List MapRequest) :
    Prop where
  /-- A page below the limit of the mode with a leaf lies in the range of a request whose leaf it
  is. -/
  requested : ∀ w : VirtPage, w.toNat < 2 ^ M.tableShift M.topLevel → ∀ e L,
    M.LeafAt mem nodes w e L → ∃ q ∈ reqs, q.Covers w ∧ q.Describes M w e L
  /-- A page of a request that returned success has that request's leaf. -/
  mapped : ∀ q ∈ reqs, q.res = .ok () → ∀ w, q.Covers w →
    ∃ e L, M.LeafAt mem nodes w e L ∧ q.Describes M w e L

namespace Refines

variable {mem : Memory} {reqs : List MapRequest}

/-- A request that did not succeed and changed nothing keeps the answer. -/
theorem unchanged {nodes : List TableNode} (h : Refines M mem nodes reqs) {q : MapRequest}
    (hq : q.res ≠ .ok ()) : Refines M mem nodes (reqs ++ [q]) where
  requested w hw e L hleaf := by
    obtain ⟨q', hq', hcov, hdesc⟩ := h.requested w hw e L hleaf
    exact ⟨q', List.mem_append_left _ hq', hcov, hdesc⟩
  mapped q' hq' hres := by
    rcases List.mem_append.1 hq' with hq' | hq'
    · exact h.mapped q' hq' hres
    · obtain rfl := List.mem_singleton.1 hq'
      exact absurd hres hq

/-- A call that has done some pages of its request, and all of them if it returned success,
keeps the answer: a new leaf is one it wrote for a page done, and the old leaves stay. -/
theorem of_progress (hM : M.Sound) {c : M.MapCall a} (h : Refines M c.mem (c.root :: c.nodes) reqs)
    (hppn : c.ppn.toNat + c.n.toNat ≤ 2 ^ 44) {done : VirtPage → Prop} {nodes : List TableNode}
    (hp : c.Progress done mem (c.root :: nodes)) (ht : M.Tree mem a (c.root :: nodes))
    (hroot : c.root.level = M.topLevel) (hblock : c.root.block = 0)
    (hdone : ∀ w, done w → ∃ s ∈ c.segs, s.Holds w.toNat) (res : Except Fault Unit)
    (hall : res = .ok () → ∀ w : VirtPage, (∃ s ∈ c.segs, s.Holds w.toNat) → done w) :
    Refines M mem (c.root :: nodes) (reqs ++ [c.request res]) where
  requested w hw e L hleaf := by
    rcases hp.leafAt_cases hM ht hw hleaf with hold | hd
    · obtain ⟨q, hq, hcov, hdesc⟩ := h.requested w hw e L hold
      exact ⟨q, List.mem_append_left _ hq, hcov, hdesc⟩
    · -- the leaf is the one the call wrote for the page
      obtain ⟨s, hs, hsw⟩ := hdone w hd
      obtain ⟨rfl, rfl⟩ := ht.leafAt_unique hM hroot hblock (hp.leaf w hd s hs hsw) hleaf
      exact ⟨c.request res, List.mem_append_right _ (List.mem_singleton_self _),
        (c.plan.holds w.toNat).1 ⟨s, hs, hsw⟩, c.describes_leaf hM hppn res hs hsw⟩
  mapped q hq hres w hcov := by
    rcases List.mem_append.1 hq with hq | hq
    · obtain ⟨e, L, hleaf, hdesc⟩ := h.mapped q hq hres w hcov
      exact ⟨e, L, c.is_tree.leafAt_of_grows hM hp.grows hleaf, hdesc⟩
    · obtain rfl := List.mem_singleton.1 hq
      obtain ⟨s, hs, hsw⟩ := (c.plan.holds w.toNat).2 hcov
      exact ⟨_, _, hp.leaf w (hall hres w ⟨s, hs, hsw⟩) s hs hsw,
        c.describes_leaf hM hppn res hs hsw⟩

end Refines

/-- A mapping request on a live space that returns keeps the answer of its leaves to the
requests, the request itself added. -/
theorem LiveSpace.map_refines (hM : M.Sound) {root : TableNode} {nodes : List TableNode}
    (hl : m.LiveSpace M a r held root nodes) {reqs : List MapRequest}
    (hR : Refines M m.memory (root :: nodes) reqs) (q : MapRequest) {m' : Machine}
    (hrun : (map r q.vpn q.ppn q.n q.flags).run m = .ok q.res m') :
    ∃ nodes', m'.LiveSpace M a r held root nodes' ∧
      Refines M m'.memory (root :: nodes') (reqs ++ [q]) := by
  rcases hl.map_returns hM hrun with ⟨f, -, hres, rfl⟩ | ⟨hc, segs, hplan, -, -, hok, herr⟩
  · -- a refused range changes nothing
    exact ⟨nodes, hl, hR.unchanged (by rw [hres]; exact nofun)⟩
  · have hppn : q.ppn.toNat + q.n.toNat ≤ 2 ^ 44 :=
      ((hM.checkRange_eq_ok _ _ _).1 hc).2.trans
        (Nat.pow_le_pow_right (by norm_num) hM.ppnBits_le)
    by_cases hres : q.res = .ok ()
    · obtain ⟨nodes', ⟨hl', -⟩, hp⟩ := hok hres
      exact ⟨nodes', hl', hR.of_progress hM hppn hp hl'.tree hl.root_level hl.root_block
        (fun _ hw => hw) q.res fun _ _ hw => hw⟩
    · obtain ⟨f, hf'⟩ : ∃ f, q.res = .error f := by
        cases h : q.res with
        | ok u => exact absurd h hres
        | error f => exact ⟨f, rfl⟩
      obtain ⟨done, hdone, nodes', ⟨hl', -⟩, hp, -⟩ := (herr f hf').2
      exact ⟨nodes', hl', hR.of_progress hM hppn hp hl'.tree hl.root_level hl.root_block hdone
        q.res fun h => absurd h hres⟩

/-- Every space of a history is live, and its leaves answer to the requests of the history. -/
theorem Mapped.refines (hM : M.Sound) {reqs : List MapRequest} (h : Mapped M a r held m reqs) :
    ∃ root nodes, m.LiveSpace M a r held root nodes ∧ Refines M m.memory (root :: nodes) reqs := by
  induction h with
  | new hlt hacc hstop hrun =>
    obtain ⟨root, hf⟩ := FreshSpace.new hM hlt hacc hstop hrun
    exact ⟨root, [], hf.live,
      ⟨fun w _ e L hleaf => absurd hleaf (hf.not_leafAt hM w e L), fun q hq => absurd hq nofun⟩⟩
  | map q _ hrun ih =>
    obtain ⟨root, nodes, hl, hR⟩ := ih
    obtain ⟨nodes', hl', hR'⟩ := hl.map_refines hM hR q hrun
    exact ⟨root, nodes', hl', hR'⟩

/-- The lookup of a page in a space of a history, by the requests that cover the page below the
limit of the mode. It is the lookup of that page; it never runs off the lowest level; it meets an
invalid entry when no request covers the page, and finds the leaf of any request that covers the
page and returned success; when only requests that met the allocator's refusal of a table cover
the page, it meets an invalid entry or finds the leaf of one of them. -/
theorem findEntry_answers_requests (hM : M.Sound) {reqs : List MapRequest}
    (h : Mapped M a r held m reqs) (v : VirtPage) :
    (findEntry r v).run m = (findEntry r (v % M.vpnLimit)).run m ∧
    (∀ res m', (findEntry r v).run m = .ok res m' → res ≠ .error .notLeafInLowestLevel) ∧
    ((∀ q ∈ reqs, ¬ q.Covers (v % M.vpnLimit)) →
      (findEntry r v).run m = .ok (.error .invalidEntry) m) ∧
    (∀ q ∈ reqs, q.res = .ok () → q.Covers (v % M.vpnLimit) → ∃ e L,
      (findEntry r v).run m = .ok (.ok (e, L)) m ∧ q.Describes M (v % M.vpnLimit) e L) ∧
    ((∀ q ∈ reqs, q.Covers (v % M.vpnLimit) → q.OutOfFrames) →
      (findEntry r v).run m = .ok (.error .invalidEntry) m ∨
      ∃ q ∈ reqs, q.OutOfFrames ∧ q.Covers (v % M.vpnLimit) ∧ ∃ e L,
        (findEntry r v).run m = .ok (.ok (e, L)) m ∧ q.Describes M (v % M.vpnLimit) e L) := by
  obtain ⟨root, nodes, hl, hR⟩ := h.refines hM
  have hmod := hl.findEntry_mod hM v
  have hw : (v % M.vpnLimit).toNat < 2 ^ M.tableShift M.topLevel := by
    rw [hM.toNat_mod_vpnLimit]
    exact Nat.mod_lt _ (Nat.two_pow_pos _)
  have hlook : (findEntry r v).run m =
      .ok (M.lookup m.memory root.box.ppn (v % M.vpnLimit)) m := by
    rw [← hmod, hl.findEntry_run hM]
  have hiff := hl.tree.lookup_eq_ok_iff hM hl.root_level hl.root_block (v % M.vpnLimit)
  -- a page without a leaf meets an invalid entry
  have hinvalid : (∀ e L, ¬ M.LeafAt m.memory (root :: nodes) (v % M.vpnLimit) e L) →
      (findEntry r v).run m = .ok (.error .invalidEntry) m := fun hno => by
    rw [hlook, hl.tree.lookup_eq_invalid hM hl.root_level hl.root_block hno]
  refine ⟨hmod.symm, ?_, fun hno => hinvalid fun e L hleaf => ?_, fun q hq hres hcov => ?_,
    fun honly => ?_⟩
  · rintro res m' hres rfl
    rw [hlook] at hres
    injection hres with hlk
    cases hl.tree.lookup_eq_error hM hl.root_level hl.root_block _ hlk
  · obtain ⟨q, hq, hcov, -⟩ := hR.requested _ hw e L hleaf
    exact hno q hq hcov
  · obtain ⟨e, L, hleaf, hdesc⟩ := hR.mapped q hq hres _ hcov
    exact ⟨e, L, by rw [hlook, (hiff e L).2 hleaf], hdesc⟩
  · by_cases hleaf : ∃ e L, M.LeafAt m.memory (root :: nodes) (v % M.vpnLimit) e L
    · obtain ⟨e, L, hleaf⟩ := hleaf
      obtain ⟨q, hq, hcov, hdesc⟩ := hR.requested _ hw e L hleaf
      exact .inr ⟨q, hq, honly q hq hcov, hcov, e, L, by rw [hlook, (hiff e L).2 hleaf], hdesc⟩
    · exact .inl (hinvalid fun e L h => hleaf ⟨e, L, h⟩)

/-- On a space of mode Sv39 made over an allocator of 256 frames, after the request that maps
the pages `[0x100, 0x300)` onto the frames from `0x80100`: the page `0x8000180` is looked up as
the page `0x180` below the limit of the mode, which has the request's leaf, and the page `0x300`
past the range meets an invalid entry. -/
theorem findEntry_after_one_request :
    ∃ m' m'', (newSpace .sv39 ⟨0⟩).run
        { allocators := #[⟨FrameAllocator.new 0x80000 0x80100, #[]⟩] } = .ok (.ok ⟨0⟩) m' ∧
      (map ⟨0⟩ 0x100 0x80100 0x200 Flags.rwx).run m' = .ok (.ok ()) m'' ∧
      (findEntry ⟨0⟩ 0x8000180).run m'' = (findEntry ⟨0⟩ 0x180).run m'' ∧
      (∃ e L, (findEntry ⟨0⟩ 0x8000180).run m'' = .ok (.ok (e, L)) m'' ∧
        MapRequest.Describes ⟨0x100, 0x80100, 0x200, Flags.rwx, .ok ()⟩ .sv39 0x180 e L) ∧
      (findEntry ⟨0⟩ 0x300).run m'' = .ok (.error .invalidEntry) m'' := by
  have h₀ : (newSpace .sv39 ⟨0⟩).run
      { allocators := #[⟨FrameAllocator.new 0x80000 0x80100, #[]⟩] } = .ok (.ok ⟨0⟩) _ := rfl
  obtain ⟨root₀, hf⟩ := FreshSpace.new Mode.sound_sv39 (a := ⟨0⟩)
    (m := { allocators := #[⟨FrameAllocator.new 0x80000 0x80100, #[]⟩] }) (by decide)
    (Accounts.new _ _) (by decide) h₀
  obtain ⟨m'', -, hrun, -⟩ := hf.map_sv39_ok (by decide : Flags.rwx.hasAny .rwx = true)
    (by rfl : Mode.sv39.checkRange 0x100 0x80100 0x200 = .ok ()) (by decide +kernel)
  have hmapped : Mapped .sv39 ⟨0⟩ ⟨0⟩ [] m'' [⟨0x100, 0x80100, 0x200, Flags.rwx, .ok ()⟩] :=
    .map _ (.new (by decide) (by exact Accounts.new _ _) (by decide) h₀) hrun
  obtain ⟨hmod, -, -, hok, -⟩ := findEntry_answers_requests Mode.sound_sv39 hmapped 0x8000180
  obtain ⟨-, -, hno, -, -⟩ := findEntry_answers_requests Mode.sound_sv39 hmapped 0x300
  have hv : (0x8000180 : VirtPage) % Mode.sv39.vpnLimit = 0x180 := by decide
  have hw : (0x300 : VirtPage) % Mode.sv39.vpnLimit = 0x300 := by decide
  rw [hv] at hmod hok
  rw [hw] at hno
  obtain ⟨e, L, hfind, hdesc⟩ := hok _ (List.mem_singleton_self _) rfl
    (by simp [MapRequest.Covers])
  refine ⟨_, m'', h₀, hrun, hmod, ⟨e, L, hfind, hdesc⟩, hno fun q hq => ?_⟩
  rw [List.mem_singleton] at hq
  subst hq
  simp [MapRequest.Covers]

end Machine

end Paging
