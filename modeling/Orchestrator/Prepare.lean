import Mathlib.Data.List.Perm.Basic
import Orchestrator.Recompute
import Orchestrator.Traversal

/-!
What `adaptPrepareSchedule` does to configuration and tracers. Every traversal
only changes masks and fixed flags, pushes one allocation per element, and adds
each fixed task to the tracer its allocation is assigned to.
-/

namespace Orchestrator.Prepare
open Orchdata Resmgnt Adaptive Admission Recompute Traversal

/-- `after` differs from `before` in masks and fixed flags only. -/
structure Kept (before after : Containers) : Prop where
  img : after.img = before.img
  cont : after.cont = before.cont
  pids : after.pids = before.pids
  imgs : ∀ i, { after.imgAt i with status.cfix := false } =
    { before.imgAt i with status.cfix := false }
  conts : ∀ c, { after.contAt c with status.cfix := false } =
    { before.contAt c with status.cfix := false }
  pidcs : ∀ p, { after.pidcAt p with status.cfix := false } =
    { before.pidcAt p with status.cfix := false }
  attrs : after.attrAt = before.attrAt
  rscs : ∀ r, { after.rscsAt r with affinityMask := none } =
    { before.rscsAt r with affinityMask := none }

theorem kept_refl (conts : Containers) : Kept conts conts :=
  ⟨rfl, rfl, rfl, fun _ => rfl, fun _ => rfl, fun _ => rfl, rfl, fun _ => rfl⟩

theorem kept_trans {first middle last : Containers} (left : Kept first middle)
    (right : Kept middle last) : Kept first last where
  img := right.img.trans left.img
  cont := right.cont.trans left.cont
  pids := right.pids.trans left.pids
  imgs := fun i => (right.imgs i).trans (left.imgs i)
  conts := fun c => (right.conts c).trans (left.conts c)
  pidcs := fun p => (right.pidcs p).trans (left.pidcs p)
  attrs := right.attrs.trans left.attrs
  rscs := fun r => (right.rscs r).trans (left.rscs r)

section Frame
variable {before after : Containers}

theorem kept_parm (kept : Kept before after) (item : Item) :
    { parm after item with status.cfix := false } = { parm before item with status.cfix := false } := by
  cases item with
  | img i => exact congrArg Img.toParm (kept.imgs i)
  | cont c => exact congrArg Cont.toParm (kept.conts c)
  | pid p => exact congrArg Pidc.toParm (kept.pidcs p)

theorem kept_attr (kept : Kept before after) (item : Item) :
    attrOf after item = attrOf before item := by
  have pointer := congrArg Parm.attr (kept_parm kept item)
  have same : (parm after item).attr = (parm before item).attr := pointer
  rw [attrOf, attrOf, kept.attrs, same]

theorem kept_rscs (kept : Kept before after) (item : Item) :
    (parm after item).rscs = (parm before item).rscs := by
  have pointer := congrArg Parm.rscs (kept_parm kept item)
  exact pointer

theorem kept_img_pids (kept : Kept before after) (i : Nat) :
    (after.imgAt i).pids = (before.imgAt i).pids := by
  have same := congrArg Img.pids (kept.imgs i)
  exact same

theorem kept_img_conts (kept : Kept before after) (i : Nat) :
    (after.imgAt i).conts = (before.imgAt i).conts := by
  have same := congrArg Img.conts (kept.imgs i)
  exact same

theorem kept_cont_pids (kept : Kept before after) (c : Nat) :
    (after.contAt c).pids = (before.contAt c).pids := by
  have same := congrArg Cont.pids (kept.conts c)
  exact same

theorem kept_cont_img (kept : Kept before after) (c : Nat) :
    (after.contAt c).img = (before.contAt c).img := by
  have same := congrArg Cont.img (kept.conts c)
  exact same

theorem kept_pidc_img (kept : Kept before after) (p : Nat) :
    (after.pidcAt p).img = (before.pidcAt p).img := by
  have same := congrArg Pidc.img (kept.pidcs p)
  exact same

theorem kept_pidc_cont (kept : Kept before after) (p : Nat) :
    (after.pidcAt p).cont = (before.pidcAt p).cont := by
  have same := congrArg Pidc.cont (kept.pidcs p)
  exact same

theorem set_rscs_kept (conts : Containers) (r : Nat) (value : SchedRscs)
    (same : { value with affinityMask := none } = { conts.rscsAt r with affinityMask := none }) :
    Kept conts (conts.setRscs r value) := by
  refine ⟨rfl, rfl, rfl, fun _ => rfl, fun _ => rfl, fun _ => rfl, rfl, fun other => ?_⟩
  exact update_keeps conts.rscsAt r value (fun rscs => { rscs with affinityMask := none }) same other

theorem set_mask_kept (conts : Containers) (item : Item) (mask : Bitmask) :
    Kept conts (setMask conts item mask) := set_rscs_kept conts _ _ rfl

theorem create_affinity_mask_same (numa : Numa) (default : Bitmask) (rscs : SchedRscs)
    (bDep : Option Bitmask) :
    { createAffinityMask numa default rscs bDep with affinityMask := none } =
      { rscs with affinityMask := none } := by
  unfold createAffinityMask
  split_ifs <;> rfl

theorem push_resource_kept (numa : Numa) (default : Bitmask) (conts : Containers) (item : Item)
    (bDep : Option Bitmask) : Kept conts (pushResource numa default conts item bDep) := by
  unfold pushResource
  split_ifs with shared
  · exact kept_refl conts
  · exact set_rscs_kept conts _ _ (create_affinity_mask_same numa default _ bDep)

theorem set_cfix_kept (conts : Containers) (item : Item) : Kept conts (setCfix conts item) := by
  cases item with
  | img i =>
      refine ⟨rfl, rfl, rfl, fun other => ?_, fun _ => rfl, fun _ => rfl, rfl, fun _ => rfl⟩
      by_cases hit : other = i
      · subst hit; simp [setCfix, Containers.setImg]
      · simp [setCfix, Containers.setImg, hit]
  | cont c =>
      refine ⟨rfl, rfl, rfl, fun _ => rfl, fun other => ?_, fun _ => rfl, rfl, fun _ => rfl⟩
      by_cases hit : other = c
      · subst hit; simp [setCfix, Containers.setCont]
      · simp [setCfix, Containers.setCont, hit]
  | pid p =>
      refine ⟨rfl, rfl, rfl, fun _ => rfl, fun _ => rfl, fun other => ?_, rfl, fun _ => rfl⟩
      by_cases hit : other = p
      · subst hit; simp [setCfix, Containers.setPidc]
      · simp [setCfix, Containers.setPidc, hit]

end Frame

/-- The tasks added to a tracer, oldest first. -/
def tasksOf (trcs : Tracers) (trc : Nat) : List SchedAttr :=
  (trcs.log.filter fun entry => entry.1 = trc).map Prod.snd

section Books
variable (fp : Rounding) (rrtime : Int)

/-- Each tracer is what its additions make of it, and these are the tasks of
the allocations assigned to it. -/
structure Books (conts : Containers) (trcs : Tracers) (allocs : List ResAlloc) : Prop where
  replay : ∀ trc, trcs.trcAt trc = addAll fp rrtime (freshTracer trc) (tasksOf trcs trc)
  backed : ∀ trc, (countedAllocs conts allocs trc).Perm (tasksOf trcs trc)

/-- No addition was refused. -/
def Accepts (trcs : Tracers) : Prop :=
  ∀ trc, Along fp rrtime (fun res par => verdict fp rrtime res par ≠ -1) (freshTracer trc)
    (tasksOf trcs trc)

theorem tasks_of_add (trcs : Tracers) (trc other : Nat) (par : SchedAttr) :
    tasksOf (trcs.add fp rrtime trc par).2 other =
      if other = trc then tasksOf trcs other ++ [par] else tasksOf trcs other := by
  by_cases hit : other = trc
  · simp [tasksOf, Tracers.add, hit]
  · have apart : ¬ trc = other := fun same => hit same.symm
    simp [tasksOf, Tracers.add, hit, apart]

theorem counted_allocs_cons (conts : Containers) (alloc : ResAlloc) (allocs : List ResAlloc)
    (trc : Nat) :
    countedAllocs conts (alloc :: allocs) trc =
      if alloc.assigned = some trc then attrOf conts alloc.item :: countedAllocs conts allocs trc
      else countedAllocs conts allocs trc := by
  by_cases assigned : alloc.assigned = some trc <;> simp [countedAllocs, assigned]

theorem counted_allocs_perm (conts : Containers) {left right : List ResAlloc} (trc : Nat)
    (order : left.Perm right) :
    (countedAllocs conts left trc).Perm (countedAllocs conts right trc) :=
  (order.filter _).map _

theorem counted_allocs_kept {before after : Containers} (kept : Kept before after)
    (allocs : List ResAlloc) (trc : Nat) :
    countedAllocs after allocs trc = countedAllocs before allocs trc := by
  simp only [countedAllocs, kept_attr kept]

theorem books_kept {before after : Containers} (kept : Kept before after) (trcs : Tracers)
    (allocs : List ResAlloc) (books : Books fp rrtime before trcs allocs) :
    Books fp rrtime after trcs allocs :=
  ⟨books.replay, fun trc => by rw [counted_allocs_kept kept]; exact books.backed trc⟩

theorem books_perm {conts : Containers} {trcs : Tracers} {left right : List ResAlloc}
    (order : left.Perm right) (books : Books fp rrtime conts trcs left) :
    Books fp rrtime conts trcs right :=
  ⟨books.replay, fun trc => (counted_allocs_perm conts trc order).symm.trans (books.backed trc)⟩

theorem books_unassigned (conts : Containers) (trcs : Tracers) (item : Item)
    (allocs : List ResAlloc) (books : Books fp rrtime conts trcs allocs) :
    Books fp rrtime conts trcs (⟨item, none⟩ :: allocs) :=
  ⟨books.replay, fun trc => by simpa [counted_allocs_cons] using books.backed trc⟩

/-- An addition is booked with the allocation that is assigned. -/
theorem books_add (conts : Containers) (trcs : Tracers) (item : Item) (trc : Nat)
    (allocs : List ResAlloc) (books : Books fp rrtime conts trcs allocs) :
    Books fp rrtime conts (trcs.add fp rrtime trc (attrOf conts item)).2
      (⟨item, some trc⟩ :: allocs) := by
  constructor
  · intro other
    rw [tasks_of_add]
    by_cases hit : other = trc
    · subst hit
      rw [if_pos rfl, add_all_append, ← books.replay]
      simp [Tracers.add, checkUvalue, addAll]
    · rw [if_neg hit, ← books.replay]
      simp [Tracers.add, hit]
  · intro other
    rw [tasks_of_add, counted_allocs_cons]
    by_cases hit : other = trc
    · subst hit
      rw [if_pos rfl, if_pos rfl]
      exact ((books.backed other).cons _).trans (List.perm_append_singleton _ _).symm
    · have apart : ¬ some trc = some other := fun same => hit (Option.some.inj same).symm
      rw [if_neg hit, if_neg apart]
      exact books.backed other

theorem accepts_add (conts : Containers) (trcs : Tracers) (allocs : List ResAlloc) (trc : Nat)
    (par : SchedAttr) (books : Books fp rrtime conts trcs allocs) (accepts : Accepts fp rrtime trcs)
    (passed : verdict fp rrtime (trcs.trcAt trc) par ≠ -1) :
    Accepts fp rrtime (trcs.add fp rrtime trc par).2 := by
  intro other
  rw [tasks_of_add]
  by_cases hit : other = trc
  · subst hit
    rw [if_pos rfl, along_append, ← books.replay]
    exact ⟨accepts other, passed, trivial⟩
  · rw [if_neg hit]
    exact accepts other

/-- Progress of a traversal that pushed the allocations `new`. The resources at
address `hole` may have lost their mask. -/
structure Advances (hole : Option Nat) (before after : Globals) (new : List ResAlloc) : Prop where
  kept : Kept before.conts after.conts
  heads : after.trcs.rHead = before.trcs.rHead
  books : ∀ outer, Books fp rrtime before.conts before.trcs outer →
    Books fp rrtime after.conts after.trcs (new ++ outer)
  accepts : ∀ outer, Books fp rrtime before.conts before.trcs outer →
    Accepts fp rrtime before.trcs → Accepts fp rrtime after.trcs
  masks : ∀ r, hole ≠ some r → (before.conts.rscsAt r).affinityMask.isSome →
    (after.conts.rscsAt r).affinityMask.isSome
  masked : ∀ alloc ∈ new, (maskOf after.conts alloc.item).isSome

theorem advances_refl (state : Globals) : Advances fp rrtime none state state [] :=
  ⟨kept_refl _, rfl, fun _ books => books, fun _ _ accepts => accepts, fun _ _ some => some,
    fun _ member => by cases member⟩

theorem advances_trans {hole : Option Nat} {first middle last : Globals} {new newer : List ResAlloc}
    (left : Advances fp rrtime hole first middle new)
    (right : Advances fp rrtime none middle last newer) :
    Advances fp rrtime hole first last (newer ++ new) where
  kept := kept_trans left.kept right.kept
  heads := right.heads.trans left.heads
  books := fun outer books => by
    rw [List.append_assoc]
    exact right.books _ (left.books outer books)
  accepts := fun outer books accepts =>
    right.accepts _ (left.books outer books) (left.accepts outer books accepts)
  masks := fun r apart some => right.masks r (by simp) (left.masks r apart some)
  masked := fun alloc member => by
    rcases List.mem_append.mp member with late | early
    · exact right.masked alloc late
    · have masked := right.masks _ (by simp) (left.masked alloc early)
      rwa [maskOf, rscsOf, kept_rscs right.kept]

theorem advances_perm {hole : Option Nat} {before after : Globals} {left right : List ResAlloc}
    (order : left.Perm right) (advances : Advances fp rrtime hole before after left) :
    Advances fp rrtime hole before after right :=
  { advances with
    books := fun outer books =>
      books_perm fp rrtime (order.append_right outer) (advances.books outer books)
    masked := fun alloc member => advances.masked alloc (order.mem_iff.mpr member) }

/-- The resources that lost their mask have one again. -/
theorem advances_plug {r : Nat} {before after : Globals} {new : List ResAlloc}
    (advances : Advances fp rrtime (some r) before after new)
    (mask : (after.conts.rscsAt r).affinityMask.isSome) :
    Advances fp rrtime none before after new :=
  { advances with
    masks := fun other _ some => by
      by_cases hit : r = other
      · exact hit ▸ mask
      · exact advances.masks other (fun same => hit (Option.some.inj same)) some }

theorem advances_of_kept {hole : Option Nat} (state : Globals) (conts : Containers)
    (kept : Kept state.conts conts)
    (masks : ∀ r, hole ≠ some r → (state.conts.rscsAt r).affinityMask.isSome →
      (conts.rscsAt r).affinityMask.isSome) :
    Advances fp rrtime hole state { state with conts := conts } [] where
  kept := kept
  heads := rfl
  books := fun outer books => books_kept fp rrtime kept _ outer books
  accepts := fun _ _ accepts => accepts
  masks := masks
  masked := fun _ member => by cases member

end Books

section Operations
variable (fp : Rounding) (numa : Numa) (rrtime : Int) (default : Bitmask)

theorem set_cfix_rscs_at (conts : Containers) (item : Item) :
    (setCfix conts item).rscsAt = conts.rscsAt := by
  cases item <;> rfl

theorem push_resource_masks (conts : Containers) (item : Item) (bDep : Option Bitmask) (r : Nat)
    (apart : some (parm conts item).rscs ≠ some r) :
    (pushResource numa default conts item bDep).rscsAt r = conts.rscsAt r := by
  unfold pushResource
  split_ifs with shared
  · rfl
  · have other : r ≠ (parm conts item).rscs := fun same => apart (by rw [same])
    simp [Containers.setRscs, other]

theorem push_resource_advances (state : Globals) (item : Item) (bDep : Option Bitmask) :
    Advances fp rrtime (some (parm state.conts item).rscs) state
      { state with conts := pushResource numa default state.conts item bDep } [] :=
  advances_of_kept fp rrtime state _ (push_resource_kept numa default _ item bDep)
    fun r apart some => by rwa [push_resource_masks numa default _ item bDep r apart]

theorem narrow_advances (state : Globals) (item : Item) (bm : Bitmask) (conts : Containers)
    (run : narrow state.conts item bm = .ok conts) :
    Advances fp rrtime none state { state with conts := conts } [] := by
  unfold narrow at run
  split_ifs at run with empty
  · cases run
    exact advances_of_kept fp rrtime state _ (kept_refl _) fun _ _ some => some
  · split at run
    · cases run
    · cases run
      refine advances_of_kept fp rrtime state _ (set_mask_kept _ item _) fun r _ some => ?_
      by_cases hit : r = (parm state.conts item).rscs
      · simp [setMask, Containers.setRscs, hit]
      · simpa [setMask, Containers.setRscs, hit] using some

theorem add_tracer_advances (state : Globals) (item : Item) (mask : Bitmask) (cpu : Int)
    (passed : ¬ (addTracer fp numa rrtime state item mask cpu).1 < 0) :
    ∃ trc, (addTracer fp numa rrtime state item mask cpu).2 =
        ({ state with trcs := (state.trcs.add fp rrtime trc (attrOf state.conts item)).2 }, some trc) ∧
      verdict fp rrtime (state.trcs.trcAt trc) (attrOf state.conts item) ≠ -1 := by
  unfold addTracer at passed ⊢
  cases target : addTracerTarget numa state.trcs mask cpu with
  | none => simp [target] at passed
  | some trc =>
      refine ⟨trc, rfl, fun refused => ?_⟩
      simp [target, Tracers.add, checkUvalue, refused] at passed

/-- A fixed allocation is tested, added and assigned; any other has its mask. -/
theorem add_tracer_fix_advances (state after : Globals) (item : Item) (alloc : ResAlloc)
    (run : addTracerFix fp numa rrtime state item = .ok (after, alloc)) :
    Advances fp rrtime none state after [alloc] ∧ alloc.item = item := by
  unfold addTracerFix at run
  cases mask : maskOf state.conts item with
  | none => simp [mask] at run
  | some bits =>
      simp only [mask] at run
      split_ifs at run with single refused
      · obtain ⟨trc, call, passed⟩ := add_tracer_advances fp numa rrtime state item bits (-1) refused
        rw [call] at run
        cases run
        -- one CPU: added to its tracer and assigned
        have kept := set_cfix_kept state.conts item
        refine ⟨⟨kept, rfl, fun outer books => ?_, fun outer books accepts => ?_, ?_, ?_⟩, rfl⟩
        · exact books_kept fp rrtime kept _ _ (books_add fp rrtime _ _ item trc outer books)
        · exact accepts_add fp rrtime _ _ outer trc _ books accepts passed
        · intro r _ some
          rwa [set_cfix_rscs_at]
        · intro other member
          rw [List.mem_singleton.mp member, maskOf, rscsOf, kept_rscs kept, set_cfix_rscs_at]
          exact Option.isSome_of_eq_some mask
      · cases run
        -- several CPUs: left to the planner
        have idle := advances_refl fp rrtime state
        refine ⟨{ idle with books := fun outer books => ?_, masked := fun other member => ?_ }, rfl⟩
        · exact books_unassigned fp rrtime _ _ item outer books
        · rw [List.mem_singleton.mp member]
          exact Option.isSome_of_eq_some mask

/-- A traversal from `before` to `after` pushed these elements. -/
def Pushes (items : List Item) (before : Globals) (old : List ResAlloc) (after : Globals)
    (all : List ResAlloc) : Prop :=
  ∃ new, all = new ++ old ∧ new.map ResAlloc.item = items ∧
    Advances fp rrtime none before after new

theorem pushes_refl (state : Globals) (old : List ResAlloc) :
    Pushes fp rrtime [] state old state old :=
  ⟨[], rfl, rfl, advances_refl fp rrtime state⟩

theorem pushes_trans {items later : List Item} {first middle last : Globals}
    {old some all : List ResAlloc} (left : Pushes fp rrtime items first old middle some)
    (right : Pushes fp rrtime later middle some last all) :
    Pushes fp rrtime (later ++ items) first old last all := by
  obtain ⟨new, split, names, advances⟩ := left
  obtain ⟨newer, splitNewer, namesNewer, advancesNewer⟩ := right
  refine ⟨newer ++ new, ?_, ?_, advances_trans fp rrtime advances advancesNewer⟩
  · rw [splitNewer, split, List.append_assoc]
  · rw [List.map_append, names, namesNewer]

/-- An element whose mask is computed, perhaps lost, and then found in place. -/
theorem pushes_unit (state middle after : Globals) (item : Item) (alloc : ResAlloc)
    (inner old : List ResAlloc) (items : List Item)
    (advances : Advances fp rrtime (some (parm state.conts item).rscs) state middle inner)
    (names : inner.map ResAlloc.item = items)
    (run : addTracerFix fp numa rrtime middle item = .ok (after, alloc)) :
    Pushes fp rrtime (items ++ [item]) state old after (inner ++ alloc :: old) := by
  obtain ⟨fixed, same⟩ := add_tracer_fix_advances fp numa rrtime middle after item alloc run
  -- the placement finds the mask in place, which plugs the hole
  have both := advances_trans fp rrtime advances fixed
  have mask := both.masked alloc (by simp)
  rw [same, maskOf, rscsOf, kept_rscs both.kept] at mask
  refine ⟨inner ++ [alloc], by simp, by simp [names, same], ?_⟩
  exact advances_perm fp rrtime List.perm_append_comm (advances_plug fp rrtime both mask)

theorem dd_pids_step_pushes (parent : Item) (walk next : Walk) (p : Nat)
    (run : ddPidsStep fp numa rrtime default parent walk p = .ok next) :
    Pushes fp rrtime [.pid p] walk.1 walk.2.2 next.1 next.2.2 := by
  unfold ddPidsStep at run
  obtain ⟨bm, _, run⟩ := bind_ok run
  obtain ⟨fixed, place, run⟩ := bind_ok run
  cases run
  exact pushes_unit fp numa rrtime walk.1 _ fixed.1 (.pid p) fixed.2 [] walk.2.2 []
    (push_resource_advances fp numa rrtime default walk.1 (.pid p) _) rfl place

def pidItems (pids : List Nat) : List Item := (pids.map Item.pid).reverse

theorem dd_pids_pushes (parent : Item) (pids : List Nat) (walk next : Walk)
    (run : ddPids fp numa rrtime default parent pids walk = .ok next) :
    Pushes fp rrtime (pidItems pids) walk.1 walk.2.2 next.1 next.2.2 := by
  refine fold_rule (ddPidsStep fp numa rrtime default parent)
    (fun walk pids next => Pushes fp rrtime (pidItems pids) walk.1 walk.2.2 next.1 next.2.2)
    (fun walk => pushes_refl fp rrtime walk.1 walk.2.2) ?_ pids walk next run
  intro walk p middle rest finish step tail
  have first := dd_pids_step_pushes fp numa rrtime default parent walk middle p step
  simpa [pidItems] using pushes_trans fp rrtime first tail

theorem prepare_cont_advances (bDep : Option Bitmask) (c : Nat) (state after : Globals)
    (inner : List ResAlloc)
    (run : prepareCont fp numa rrtime default bDep c state = .ok (after, inner)) :
    Advances fp rrtime (some (parm state.conts (.cont c)).rscs) state after inner ∧
      inner.map ResAlloc.item = pidItems (state.conts.contAt c).pids := by
  unfold prepareCont at run
  obtain ⟨walk, pids, run⟩ := bind_ok run
  obtain ⟨conts, narrowed, run⟩ := bind_ok run
  cases run
  have pushed := push_resource_advances fp numa rrtime default state (.cont c) bDep
  have children := dd_pids_pushes fp numa rrtime default (.cont c) _ _ walk pids
  obtain ⟨new, split, names, advances⟩ := children
  rw [List.append_nil] at split
  subst split
  have narrows := narrow_advances fp rrtime walk.1 (.cont c) walk.2.1 conts narrowed
  refine ⟨?_, ?_⟩
  · simpa using advances_trans fp rrtime (advances_trans fp rrtime pushed advances) narrows
  · rw [names]
    exact congrArg pidItems (kept_cont_pids pushed.kept c)

theorem pushes_kept {items : List Item} {before after : Globals} {old all : List ResAlloc}
    (pushes : Pushes fp rrtime items before old after all) : Kept before.conts after.conts := by
  obtain ⟨_, _, _, advances⟩ := pushes
  exact advances.kept

def contItems (conts : Containers) (c : Nat) : List Item :=
  pidItems (conts.contAt c).pids ++ [.cont c]

def contsItems (conts : Containers) (cs : List Nat) : List Item :=
  cs.reverse.flatMap (contItems conts)

def imgItems (conts : Containers) (i : Nat) : List Item :=
  pidItems (conts.imgAt i).pids ++ contsItems conts (conts.imgAt i).conts ++ [.img i]

theorem cont_items_kept {before after : Containers} (kept : Kept before after) :
    contItems after = contItems before := by
  funext c
  rw [contItems, contItems, kept_cont_pids kept]

theorem img_items_kept {before after : Containers} (kept : Kept before after) :
    imgItems after = imgItems before := by
  funext i
  rw [imgItems, imgItems, contsItems, contsItems, cont_items_kept kept, kept_img_pids kept,
    kept_img_conts kept]

theorem dd_conts_step_pushes (parent : Item) (walk next : Walk) (c : Nat)
    (run : ddContsStep fp numa rrtime default parent walk c = .ok next) :
    Pushes fp rrtime (contItems walk.1.conts c) walk.1 walk.2.2 next.1 next.2.2 := by
  unfold ddContsStep at run
  obtain ⟨inner, prepared, run⟩ := bind_ok run
  obtain ⟨bm, _, run⟩ := bind_ok run
  obtain ⟨fixed, place, run⟩ := bind_ok run
  cases run
  have advances := prepare_cont_advances fp numa rrtime default _ c walk.1 inner.1 inner.2 prepared
  exact pushes_unit fp numa rrtime walk.1 inner.1 fixed.1 (.cont c) fixed.2 inner.2 walk.2.2 _
    advances.1 advances.2 place

theorem dd_conts_pushes (parent : Item) (cs : List Nat) (walk next : Walk)
    (run : ddConts fp numa rrtime default parent cs walk = .ok next) :
    Pushes fp rrtime (contsItems walk.1.conts cs) walk.1 walk.2.2 next.1 next.2.2 := by
  refine fold_rule (ddContsStep fp numa rrtime default parent)
    (fun walk cs next => Pushes fp rrtime (contsItems walk.1.conts cs) walk.1 walk.2.2 next.1 next.2.2)
    (fun walk => pushes_refl fp rrtime walk.1 walk.2.2) ?_ cs walk next run
  intro walk c middle rest finish step tail
  have first := dd_conts_step_pushes fp numa rrtime default parent walk middle c step
  rw [contsItems, cont_items_kept (pushes_kept fp rrtime first)] at tail
  simpa [contsItems] using pushes_trans fp rrtime first tail

theorem prepare_img_pushes (sched next : Schedule) (i : Nat)
    (run : prepareImg fp numa rrtime default sched i = .ok next) :
    Pushes fp rrtime (imgItems sched.1.conts i) sched.1 sched.2 next.1 next.2 := by
  unfold prepareImg at run
  obtain ⟨inConts, conts, run⟩ := bind_ok run
  obtain ⟨walk, pids, run⟩ := bind_ok run
  obtain ⟨kept, narrowed, run⟩ := bind_ok run
  obtain ⟨fixed, place, run⟩ := bind_ok run
  cases run
  have pushed := push_resource_advances fp numa rrtime default sched.1 (.img i) none
  have nested := dd_conts_pushes fp numa rrtime default (.img i) _ _ inConts conts
  have direct := dd_pids_pushes fp numa rrtime default (.img i) _ inConts walk pids
  have keptConts := kept_trans pushed.kept (pushes_kept fp rrtime nested)
  obtain ⟨new, split, names, advances⟩ := pushes_trans fp rrtime nested direct
  rw [List.append_nil] at split
  have narrows := narrow_advances fp rrtime walk.1 (.img i) walk.2.1 kept narrowed
  have inner := advances_trans fp rrtime (advances_trans fp rrtime pushed advances) narrows
  rw [← split, List.append_nil, List.nil_append] at inner
  rw [← split, kept_img_pids keptConts, kept_img_conts pushed.kept, contsItems,
    cont_items_kept pushed.kept] at names
  exact pushes_unit fp numa rrtime sched.1 _ fixed.1 (.img i) fixed.2 walk.2.2 sched.2 _ inner names
    place

/-- The containers of the second loop: those outside of any image. -/
def soloConts (conts : Containers) (cs : List Nat) : List Nat :=
  cs.filter fun c => (conts.contAt c).img.isNone

/-- The PIDs of the third loop: those outside of any image and container. -/
def lonePids (conts : Containers) (ps : List Nat) : List Nat :=
  ps.filter fun p => (conts.pidcAt p).img.isNone && (conts.pidcAt p).cont.isNone

theorem solo_conts_kept {before after : Containers} (kept : Kept before after) :
    soloConts after = soloConts before := by
  funext cs
  simp only [soloConts, kept_cont_img kept]

theorem lone_pids_kept {before after : Containers} (kept : Kept before after) :
    lonePids after = lonePids before := by
  funext ps
  simp only [lonePids, kept_pidc_img kept, kept_pidc_cont kept]

theorem prepare_solo_pushes (sched next : Schedule) (c : Nat)
    (run : prepareSolo fp numa rrtime default sched c = .ok next) :
    Pushes fp rrtime (contsItems sched.1.conts (soloConts sched.1.conts [c])) sched.1 sched.2
      next.1 next.2 := by
  unfold prepareSolo at run
  split_ifs at run with part
  · cases run
    have skipped : soloConts sched.1.conts [c] = [] := by
      simpa [soloConts, Option.isSome_iff_ne_none] using part
    rw [skipped]
    exact pushes_refl fp rrtime sched.1 sched.2
  · obtain ⟨inner, prepared, run⟩ := bind_ok run
    obtain ⟨fixed, place, run⟩ := bind_ok run
    cases run
    have visited : soloConts sched.1.conts [c] = [c] := by
      simpa [soloConts] using part
    have advances := prepare_cont_advances fp numa rrtime default none c sched.1 inner.1 inner.2
      prepared
    rw [visited]
    simpa [contsItems, contItems] using pushes_unit fp numa rrtime sched.1 inner.1 fixed.1 (.cont c)
      fixed.2 inner.2 sched.2 _ advances.1 advances.2 place

theorem prepare_pid_pushes (sched next : Schedule) (p : Nat)
    (run : preparePid fp numa rrtime default sched p = .ok next) :
    Pushes fp rrtime (pidItems (lonePids sched.1.conts [p])) sched.1 sched.2 next.1 next.2 := by
  unfold preparePid at run
  split_ifs at run with part
  · cases run
    have skipped : lonePids sched.1.conts [p] = [] := by
      simp only [Bool.or_eq_true, Option.isSome_iff_ne_none] at part
      simp only [lonePids, List.filter_eq_nil_iff, List.mem_singleton, forall_eq,
        Bool.and_eq_true, Option.isNone_iff_eq_none]
      tauto
    rw [skipped]
    exact pushes_refl fp rrtime sched.1 sched.2
  · obtain ⟨fixed, place, run⟩ := bind_ok run
    cases run
    have visited : lonePids sched.1.conts [p] = [p] := by
      simpa [lonePids] using part
    rw [visited]
    exact pushes_unit fp numa rrtime sched.1 _ fixed.1 (.pid p) fixed.2 [] sched.2 []
      (push_resource_advances fp numa rrtime default sched.1 (.pid p) none) rfl place

/-- The elements that get an allocation, newest first. -/
def preparedItems (conts : Containers) : List Item :=
  pidItems (lonePids conts conts.pids) ++
    (contsItems conts (soloConts conts conts.cont) ++ conts.img.reverse.flatMap (imgItems conts))

theorem images_push (is : List Nat) (sched next : Schedule)
    (run : is.foldlM (prepareImg fp numa rrtime default) sched = .ok next) :
    Pushes fp rrtime (is.reverse.flatMap (imgItems sched.1.conts)) sched.1 sched.2 next.1 next.2 := by
  refine fold_rule (prepareImg fp numa rrtime default)
    (fun sched is next => Pushes fp rrtime (is.reverse.flatMap (imgItems sched.1.conts))
      sched.1 sched.2 next.1 next.2)
    (fun sched => pushes_refl fp rrtime sched.1 sched.2) ?_ is sched next run
  intro sched i middle rest finish step tail
  have first := prepare_img_pushes fp numa rrtime default sched middle i step
  rw [img_items_kept (pushes_kept fp rrtime first)] at tail
  simpa using pushes_trans fp rrtime first tail

theorem solo_push (cs : List Nat) (sched next : Schedule)
    (run : cs.foldlM (prepareSolo fp numa rrtime default) sched = .ok next) :
    Pushes fp rrtime (contsItems sched.1.conts (soloConts sched.1.conts cs)) sched.1 sched.2
      next.1 next.2 := by
  refine fold_rule (prepareSolo fp numa rrtime default)
    (fun sched cs next => Pushes fp rrtime (contsItems sched.1.conts (soloConts sched.1.conts cs))
      sched.1 sched.2 next.1 next.2)
    (fun sched => pushes_refl fp rrtime sched.1 sched.2) ?_ cs sched next run
  intro sched c middle rest finish step tail
  have first := prepare_solo_pushes fp numa rrtime default sched middle c step
  have kept := pushes_kept fp rrtime first
  rw [contsItems, cont_items_kept kept, solo_conts_kept kept] at tail
  have split : soloConts sched.1.conts (c :: rest) =
      soloConts sched.1.conts [c] ++ soloConts sched.1.conts rest := by
    rw [soloConts, soloConts, soloConts, ← List.filter_append, List.singleton_append]
  rw [split]
  simpa [contsItems] using pushes_trans fp rrtime first tail

theorem lone_push (ps : List Nat) (sched next : Schedule)
    (run : ps.foldlM (preparePid fp numa rrtime default) sched = .ok next) :
    Pushes fp rrtime (pidItems (lonePids sched.1.conts ps)) sched.1 sched.2 next.1 next.2 := by
  refine fold_rule (preparePid fp numa rrtime default)
    (fun sched ps next => Pushes fp rrtime (pidItems (lonePids sched.1.conts ps)) sched.1 sched.2
      next.1 next.2)
    (fun sched => pushes_refl fp rrtime sched.1 sched.2) ?_ ps sched next run
  intro sched p middle rest finish step tail
  have first := prepare_pid_pushes fp numa rrtime default sched middle p step
  rw [lone_pids_kept (pushes_kept fp rrtime first)] at tail
  have split : lonePids sched.1.conts (p :: rest) =
      lonePids sched.1.conts [p] ++ lonePids sched.1.conts rest := by
    rw [lonePids, lonePids, lonePids, ← List.filter_append, List.singleton_append]
  rw [split]
  simpa [pidItems] using pushes_trans fp rrtime first tail

end Operations

/-- What a schedule is after `adaptPrepareSchedule` returns. -/
structure Prepared (fp : Rounding) (numa : Numa) (set : PrgSet) (contparm : Containers)
    (sched : Schedule) : Prop where
  kept : Kept contparm sched.1.conts
  heads : ∃ mask, set.affinityMask = some mask ∧
    sched.1.trcs.rHead = (createResTracer numa.size mask).rHead
  books : Books fp set.rrtime sched.1.conts sched.1.trcs sched.2
  accepts : Accepts fp set.rrtime sched.1.trcs
  masked : ∀ alloc ∈ sched.2, (maskOf sched.1.conts alloc.item).isSome
  items : sched.2.map ResAlloc.item = preparedItems contparm

theorem books_fresh (fp : Rounding) (rrtime : Int) (conts : Containers) (size : Nat)
    (mask : Bitmask) : Books fp rrtime conts (createResTracer size mask) [] :=
  ⟨fun _ => rfl, fun _ => List.Perm.refl _⟩

theorem prepared_of_run (fp : Rounding) (numa : Numa) (set : PrgSet) (contparm : Containers)
    (sched : Schedule) (run : adaptPrepareSchedule fp numa set contparm = .ok sched) :
    Prepared fp numa set contparm sched := by
  unfold adaptPrepareSchedule at run
  split at run
  · cases run
  · rename_i mask found
    obtain ⟨images, first, run⟩ := bind_ok run
    obtain ⟨solo, second, third⟩ := bind_ok run
    -- three loops: images, containers of no image, PIDs of neither
    have start := set_rscs_kept contparm contparm.rscs _
      (create_affinity_mask_same numa mask (contparm.rscsAt contparm.rscs) none)
    have imagesPush := images_push fp numa set.rrtime mask _ _ images first
    have soloPush := solo_push fp numa set.rrtime mask _ images solo second
    have keptImages := kept_trans start (pushes_kept fp set.rrtime imagesPush)
    have keptSolo := kept_trans keptImages (pushes_kept fp set.rrtime soloPush)
    have lonePush := lone_push fp numa set.rrtime mask _ solo sched third
    obtain ⟨new, split, names, advances⟩ :=
      pushes_trans fp set.rrtime (pushes_trans fp set.rrtime imagesPush soloPush) lonePush
    rw [List.append_nil] at split
    subst split
    have fresh := books_fresh fp set.rrtime
      (contparm.setRscs contparm.rscs
        (createAffinityMask numa mask (contparm.rscsAt contparm.rscs) none)) numa.size mask
    refine ⟨kept_trans start advances.kept, ⟨mask, found, advances.heads⟩, ?_, ?_, advances.masked, ?_⟩
    · simpa using advances.books [] fresh
    · exact advances.accepts [] fresh fun _ => trivial
    · rw [names, contsItems, cont_items_kept keptImages, solo_conts_kept keptImages,
        img_items_kept start, lone_pids_kept keptSolo]
      rfl

end Orchestrator.Prepare
