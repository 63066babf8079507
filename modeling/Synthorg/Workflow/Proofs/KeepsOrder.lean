/-
Whether an activation keeps its graph's order.

Ids come from outside, one for each creation; with no id given twice, no two tasks share one, and
a chain of dependencies can be read back as a chain of locations. `activate_keepsOrder_iff` then
has both halves of the promise: dependencies always point back, and the order of the graph is kept
exactly where the walk hands it on.
-/
import Synthorg.Workflow.Proofs.Earlier

namespace Synthorg.Workflow

open List

section
open Synthorg.Core Lib TaskEngine WorkflowDefinition

variable {svc : Service} {req : ActivationRequest} {d : WorkflowDefinition}

-- ==== entries

variable {β : Type} {entries : List (String × β)} {key v : String} {b : β} {depth : Nat}
  {vars : Vars} {frame : Frame} {created : List Task} {state : WalkState} {qualifier : String}
  {state state' : WalkState}

theorem lookup_snoc {x : String} (h : entries.lookup key = none) :
    (entries ++ [(key, b)]).lookup x = if x = key then some b else entries.lookup x := by
  rw [lookup_append]
  by_cases hx : x = key
  · rw [if_pos hx, hx, h, lookup_cons, beq_self_eq_true]
    rfl
  · have hne : (x == key) = false := by simpa using hx
    rw [if_neg hx, List.lookup_cons, hne]
    simp

theorem lookup_cons {x : String} :
    ((key, b) :: entries).lookup x = if x = key then some b else entries.lookup x := by
  rw [List.lookup_cons]
  by_cases hx : x = key
  · rw [if_pos hx, hx, beq_self_eq_true]
  · have hne : (x == key) = false := by simpa using hx
    rw [if_neg hx, hne]

structure Holds (d : WorkflowDefinition) (frame : Frame) (v : String) : Prop where
  contributes : d.contributes frame.nodeTaskIds v = true ↔ ∃ t, frame.Owns v t
  contributed : ∀ id, id ∈ d.contributed frame.nodeTaskIds v ↔
    ∃ t, frame.Owns v t ∧ t.id.text = id

theorem holds_of_none (hnone : d.contributes frame.nodeTaskIds v = false)
    (hown : ∀ t, ¬ frame.Owns v t) : Holds d frame v := by
  constructor
  · rw [hnone]
    exact ⟨nofun, fun ⟨t, ht⟩ => absurd ht (hown t)⟩
  · intro id
    unfold contributed
    rw [hnone]
    exact ⟨nofun, fun ⟨t, ht, _⟩ => absurd ht (hown t)⟩

theorem holds_of_some {entry : TaskIds} {type : WorkflowNodeType}
    (htype : d.typeOf? v = some type) (hexec : type.executable = true)
    (he : frame.nodeTaskIds.lookup v = some entry) (hne : ∃ t, frame.Owns v t)
    (hids : ∀ id, id ∈ entry.flatten ↔ ∃ t, frame.Owns v t ∧ t.id.text = id) : Holds d frame v := by
  have hyes : d.contributes frame.nodeTaskIds v = true := by
    unfold contributes
    rw [htype, he]
    simpa using hexec
  constructor
  · exact ⟨fun _ => hne, fun _ => hyes⟩
  · intro id
    unfold contributed
    rw [if_pos hyes, he]
    exact hids id

-- ==== agreement

structure Agree (frame frame' : Frame) (x : String) : Prop where
  task : frame'.taskOf x = frame.taskOf x
  child : frame'.childOf x = frame.childOf x
  entry : frame'.nodeTaskIds.lookup x = frame.nodeTaskIds.lookup x
  skipped : x ∈ frame'.skippedNodes ↔ x ∈ frame.skippedNodes

section Agree

variable {frame frame' : Frame} {created created' : List Task} {x : String}

theorem Agree.owns (h : Agree frame frame' x) (t : Task) : frame'.Owns x t ↔ frame.Owns x t := by
  unfold Frame.Owns Frame.Yields
  rw [h.task, h.child]

theorem Agree.holds (h : Agree frame frame' x) (hx : Holds d frame x) : Holds d frame' x := by
  have hc : d.contributes frame'.nodeTaskIds x = d.contributes frame.nodeTaskIds x := by
    unfold contributes
    rw [h.entry]
  constructor
  · rw [hc, hx.contributes]
    exact exists_congr fun t => (h.owns t).symm
  · intro id
    have hsame : d.contributed frame'.nodeTaskIds x = d.contributed frame.nodeTaskIds x := by
      unfold contributed
      rw [hc, h.entry]
    rw [hsame, hx.contributed]
    exact exists_congr fun t => and_congr_left fun _ => (h.owns t).symm

theorem Agree.sound (hx : Agree frame frame' x)
    (hb : ∀ a, Relation.TransGen (fun a b => b ∈ d.adjacency a) a x →
      Agree frame frame' a)
    (hcreated : ∀ t ∈ created, t ∈ created') (h : SoundNode created d frame x) :
    SoundNode created' d frame' x := by
  constructor
  · intro t ht
    rw [hx.task] at ht
    obtain ⟨hmade, htype, hlive, hnone⟩ := h.task t ht
    exact ⟨hcreated t hmade, htype, fun hs => hlive (hx.skipped.1 hs), hx.child.trans hnone⟩
  · intro c hc hs
    exact h.child c (hx.child.symm.trans hc) (hx.skipped.1 hs)
  · intro t ht id
    rw [hx.task] at ht
    rw [h.dependencies t ht id]
    apply exists_congr
    intro y
    have hpath : Reach.Through d.adjacency
          (fun n => n ∉ frame.skippedNodes ∧ ∀ t, ¬ frame.Owns n t) y x ↔
        Reach.Through d.adjacency
          (fun n => n ∉ frame'.skippedNodes ∧ ∀ t, ¬ frame'.Owns n t) y x := by
      refine Reach.Through.congr fun a ha => ?_
      have hagree := hb a ha
      exact and_congr (not_congr hagree.skipped.symm)
        (forall_congr' fun t => not_congr (hagree.owns t).symm)
    rw [hpath]
    refine and_congr_right fun hthrough => exists_congr fun s => and_congr_left fun _ => ?_
    exact ((hb y (hpath.2 hthrough).transGen).owns s).symm

end Agree

theorem Sound.mono {created created' : List Task} (h : Sound created d frame)
    (hc : ∀ t ∈ created, t ∈ created') : Sound created' d frame := by
  intro path d' frame' hpath
  have hf := h path d' frame' hpath
  have hself : ∀ a, Agree frame' frame' a := fun a => ⟨rfl, rfl, rfl, Iff.rfl⟩
  exact ⟨hf.ordered, fun v =>
    (hself v).sound (fun a _ => hself a) hc (hf.node v)⟩

theorem soundNode_of_none (htask : frame.taskOf v = none)
    (hchild : frame.childOf v = none) : SoundNode created d frame v := by
  constructor
  · intro t ht
    simp [htask] at ht
  · intro c hc
    simp [hchild] at hc
  · intro t ht
    simp [htask] at ht

theorem sound_of_below (h : SoundFrame created d frame)
    (hb : ∀ v c, frame.childOf v = some c → Sound created c.1 c.2) : Sound created d frame := by
  intro path d' frame' hpath
  cases path with
  | nil =>
    cases hpath
    exact h
  | cons x rest =>
    rw [frameAt, Option.bind_eq_some_iff] at hpath
    obtain ⟨c, hx, hrest⟩ := hpath
    exact hb x c hx rest d' frame' hrest

-- ==== the second map

theorem WalkState.Wf.lookup_nodeTaskIds {s : WalkState} (hwf : s.Wf) (hn : s.keys.Nodup)
    {r : WorkflowNodeExecution} (hr : (key, r) ∈ s.nodeExecMap) :
    s.nodeTaskIds.lookup key = r.taskId.map TaskIds.one := by
  have hu : ∀ r', (key, r') ∈ s.nodeExecMap → r' = r := fun r' hr' =>
    congrArg Prod.snd (inj_on_of_nodup_map hn hr' hr rfl)
  cases hlook : s.nodeTaskIds.lookup key with
  | some ids =>
    obtain ⟨r', taskId, hr', htask, rfl⟩ := (hwf.tasks key ids).1 (mem_of_lookup hlook)
    rw [← hu r' hr', htask]
    rfl
  | none =>
    cases htask : r.taskId with
    | none => rfl
    | some taskId =>
      have hmem := (hwf.tasks key _).2 ⟨r, taskId, hr, htask, rfl⟩
      have hsome : (s.nodeTaskIds.lookup key).isSome = true :=
        lookup_isSome_iff.2 (mem_map.2 ⟨_, hmem, rfl⟩)
      simp [hlook] at hsome

def RecordedAs (qualifier : String) (frame : Frame) (state : WalkState) (v : String) : Prop :=
  ∃ r, (qualifyId qualifier v, r) ∈ state.nodeExecMap ∧
    r.taskId = (frame.taskOf v).map (·.id.text)

theorem mem_collectTerminalTaskIds (hwf : state.Wf) (hn : state.keys.Nodup)
    (hrecorded : ∀ v ∈ d.nodeIds, RecordedAs qualifier frame state v)
    (hsnd : ∀ v, SoundNode created d frame v) {id : String} :
    id ∈ collectTerminalTaskIds d qualifier state ↔
      ∃ w t, frame.EndsIn d w t ∧ t.id.text = id := by
  have hread : ∀ v ∈ d.nodeIds, state.nodeTaskIds.lookup (qualifyId qualifier v) =
      (frame.taskOf v).map fun t => .one t.id.text := by
    intro v hv
    obtain ⟨r, hr, htask⟩ := hrecorded v hv
    rw [hwf.lookup_nodeTaskIds hn hr, htask, Option.map_map]
    rfl
  unfold collectTerminalTaskIds Frame.EndsIn
  rw [mem_flatMap]
  constructor
  · rintro ⟨node, hnode, hin⟩
    have hv : node.id ∈ d.nodeIds := mem_map.2 ⟨node, hnode, rfl⟩
    split at hin
    next hboth =>
      rw [Bool.and_eq_true] at hboth
      rw [hread node.id hv] at hin
      cases htask : frame.taskOf node.id with
      | none =>
        rw [htask] at hin
        cases htype : node.type <;> rw [htype] at hin <;> cases hin
      | some t =>
        rw [htask] at hin
        refine ⟨node.id, t, ⟨hboth.2, htask⟩, ?_⟩
        cases htype : node.type <;> rw [htype] at hin <;> exact (mem_singleton.1 hin).symm
    next => cases hin
  · rintro ⟨w, t, ⟨hend, htask⟩, rfl⟩
    have htype := ((hsnd w).task t htask).2.1
    unfold isType typeOf? at htype
    rw [decide_eq_true_eq, Option.map_eq_some_iff] at htype
    obtain ⟨node, hfind, htype⟩ := htype
    obtain ⟨hnode, rfl⟩ := node?_mem hfind
    have hv : node.id ∈ d.nodeIds := mem_map.2 ⟨node, hnode, rfl⟩
    refine ⟨node, hnode, ?_⟩
    rw [hread node.id hv, htask, htype, hend]
    exact mem_singleton_self _

-- ==== the invariant

/-- THE INVARIANT of a frame's loop that started in `before`, once those in `done` had their
turn. -/
structure LoopInv (d : WorkflowDefinition) (qualifier : String) (before : World)
    (done : List String) (frame : Frame) (state : WalkState) (world : World) : Prop where
  qualified : frame.qualifier = qualifier
  wf : state.Wf
  located : ∃ made, world.created = before.created ++ made ∧
    ∀ p t, frame.taskAt p = some t → t ∈ made
  distinct : (world.created.map (·.id.text)).Nodup → Distinct frame
  recorded : ∀ v ∈ done, RecordedAs qualifier frame state v
  fresh : ∀ v, v ∉ done →
    frame.taskOf v = none ∧ frame.childOf v = none ∧ frame.nodeTaskIds.lookup v = none
  sound : state.keys.Nodup → ∀ v ∈ done, SoundNode world.created d frame v ∧
    Holds d frame v ∧ ∀ c, frame.childOf v = some c → Sound world.created c.1 c.2

structure Turned (d : WorkflowDefinition) (nid : String) (frame frame' : Frame) : Prop where
  qualified : frame'.qualifier = frame.qualifier
  task : ∀ x, x ≠ nid → frame'.taskOf x = frame.taskOf x
  child : ∀ x, x ≠ nid → frame'.childOf x = frame.childOf x
  entry : ∀ x, x ≠ nid → frame'.nodeTaskIds.lookup x = frame.nodeTaskIds.lookup x
  skipped : ∃ ahead, frame'.skippedNodes = frame.skippedNodes ++ ahead ∧
    ∀ x ∈ ahead, Relation.TransGen (fun a b => b ∈ d.adjacency a) nid x

structure OwnTurn (d : WorkflowDefinition) (qualifier nid : String) (frame frame' : Frame)
    (state' : WalkState) (world world' : World) : Prop where
  recorded : RecordedAs qualifier frame' state' nid
  located : ∃ made, world'.created = world.created ++ made ∧
    ∀ p t, frame'.taskAt p = some t →
      frame.taskAt p = some t ∨ t ∈ made ∧ p.head? = some nid
  distinct : (world'.created.map (·.id.text)).Nodup → ∀ p q t s,
    frame'.taskAt (nid :: p) = some t → frame'.taskAt (nid :: q) = some s →
      t.id.text = s.id.text → p = q
  sound : state'.keys.Nodup → SoundNode world'.created d frame' nid ∧
    Holds d frame' nid ∧ ∀ c, frame'.childOf nid = some c → Sound world'.created c.1 c.2

structure FrameSpec (d : WorkflowDefinition) (qualifier : String) (state : WalkState)
    (world : World) (frame : Frame) (state' : WalkState) (world' : World) : Prop where
  records : ∃ records, state'.nodeExecMap = records ++ state.nodeExecMap
  wf : state'.Wf
  located : ∃ made, world'.created = world.created ++ made ∧
    ∀ p t, frame.taskAt p = some t → t ∈ made
  distinct : (world'.created.map (·.id.text)).Nodup → Distinct frame
  recorded : ∀ v ∈ d.nodeIds, RecordedAs qualifier frame state' v
  sound : state'.keys.Nodup → Sound world'.created d frame

section Step

variable {qualifier nid : String} {before world world' : World}
  {order done rest : List String} {frame frame' : Frame} {state state' : WalkState}

theorem Turned.agree (h : Turned d nid frame frame') (ho : WalkOrder d order)
    (hcut : order = done ++ nid :: rest) {x : String} (hx : x ∈ done) : Agree frame frame' x := by
  have hne : x ≠ nid := by
    rintro rfl
    have hn := ho.nodup
    rw [hcut] at hn
    exact disjoint_of_nodup_append hn hx mem_cons_self
  refine ⟨h.task x hne, h.child x hne, h.entry x hne, ?_⟩
  obtain ⟨ahead, hskip, ha⟩ := h.skipped
  rw [hskip, mem_append]
  constructor
  · rintro (hold | hnew)
    · exact hold
    · exact absurd (mem_append_left _ hx) (ho.notMem_of_transGen hcut (ha x hnew))
  · exact Or.inl

theorem LoopInv.extend (h : LoopInv d qualifier before done frame state world)
    (horder : WalkOrder d order) (hcut : order = done ++ nid :: rest)
    (hturn : Turned d nid frame frame')
    (hrecs : ∃ records, state'.nodeExecMap = records ++ state.nodeExecMap) (hwf : state'.Wf)
    (hown : OwnTurn d qualifier nid frame frame' state' world world') :
    LoopInv d qualifier before (done ++ [nid]) frame' state' world' := by
  have hagree : ∀ x ∈ done, Agree frame frame' x := fun x hx => hturn.agree horder hcut hx
  obtain ⟨records, hrecs⟩ := hrecs
  obtain ⟨made, hmade, hloc⟩ := h.located
  obtain ⟨made', hmade', hloc'⟩ := hown.located
  refine ⟨hturn.qualified.trans h.qualified, hwf, ?_, ?_, ?_, ?_, ?_⟩
  · refine ⟨made ++ made', by rw [hmade', hmade, append_assoc], ?_⟩
    intro p t ht
    rcases hloc' p t ht with hold | ⟨hnew, -⟩
    · exact mem_append_left _ (hloc p t hold)
    · exact mem_append_right _ hnew
  · intro hn p q t s hp hq hid
    have hids := hn
    rw [hmade', map_append] at hids
    have hcrossing : ∀ {a b : Task} {l : List String}, frame.taskAt l = some a → b ∈ made' →
        a.id.text = b.id.text → False := by
      intro a b l ha hb hab
      have hin : a ∈ world.created := by
        rw [hmade]
        exact mem_append_right _ (hloc l a ha)
      exact disjoint_of_nodup_append hids (mem_map.2 ⟨a, hin, rfl⟩) (mem_map.2 ⟨b, hb, hab.symm⟩)
    rcases hloc' p t hp with hpolled | ⟨hw, hpushed⟩
    · rcases hloc' q s hq with ho | ⟨he, -⟩
      · exact h.distinct (nodup_append.1 hids).1 p q t s hpolled ho hid
      · exact absurd hid (fun hid => hcrossing hpolled he hid)
    · rcases hloc' q s hq with ho | ⟨he, hd⟩
      · exact absurd hid (fun hid => hcrossing ho hw hid.symm)
      · cases p with
        | nil => cases hpushed
        | cons a p =>
          cases q with
          | nil => cases hd
          | cons b q =>
            obtain rfl := Option.some.inj hpushed
            obtain rfl := Option.some.inj hd
            exact congrArg _ (hown.distinct hn p q t s hp hq hid)
  · intro v hv
    rcases mem_append.1 hv with hv | hv
    · obtain ⟨r, hr, htask⟩ := h.recorded v hv
      refine ⟨r, ?_, htask.trans (by rw [(hagree v hv).task])⟩
      rw [hrecs]
      exact mem_append_right _ hr
    · rw [mem_singleton] at hv
      exact hv ▸ hown.recorded
  · intro v hv
    have hne : v ≠ nid := fun heq => hv (by simp [heq])
    obtain ⟨htask, hchild, hentry⟩ := h.fresh v fun hin => hv (mem_append_left _ hin)
    exact ⟨(hturn.task v hne).trans htask, (hturn.child v hne).trans hchild,
      (hturn.entry v hne).trans hentry⟩
  · intro hkeys v hv
    rcases mem_append.1 hv with hv | hv
    · have hold : state.keys.Nodup := by
        unfold WalkState.keys at hkeys ⊢
        rw [hrecs, map_append] at hkeys
        exact (nodup_append.1 hkeys).2.1
      have hcreated : ∀ t ∈ world.created, t ∈ world'.created := by
        intro t ht
        rw [hmade']
        exact mem_append_left _ ht
      obtain ⟨hsnd, hh, hbelow⟩ := h.sound hold v hv
      have hl : ∀ a, Relation.TransGen (fun a b => b ∈ d.adjacency a) a v →
          Agree frame frame' a := fun a ha =>
        hagree a (horder.before_reaches hcut ha.to_reflTransGen hv)
      refine ⟨(hagree v hv).sound hl hcreated hsnd, (hagree v hv).holds hh, ?_⟩
      intro c hc
      exact (hbelow c ((hagree v hv).child.symm.trans hc)).mono hcreated
    · rw [mem_singleton] at hv
      exact hv ▸ hown.sound hkeys

theorem notMem_done (ho : WalkOrder d order) (hcut : order = done ++ nid :: rest) :
    nid ∉ done := by
  have hn := ho.nodup
  rw [hcut] at hn
  exact fun hin => disjoint_of_nodup_append hn hin mem_cons_self

variable {r : WorkflowNodeExecution}

theorem recordedAs_record (v : String) (state : WalkState)
    (h : r.taskId = (frame'.taskOf v).map (·.id.text)) :
    RecordedAs qualifier frame' (state.record (qualifyId qualifier v) r) v :=
  ⟨r, mem_cons_self, h⟩

section
variable (h : LoopInv d qualifier before done frame state world)
include h

theorem LoopInv.idle
    (horder : WalkOrder d order) (hcut : order = done ++ nid :: rest) (hnone : r.taskId = none)
    (hqualifier : frame'.qualifier = frame.qualifier) (htasks : frame'.tasks = frame.tasks)
    (hd : frame'.children = frame.children) (he : frame'.nodeTaskIds = frame.nodeTaskIds)
    (hskip : ∃ ahead, frame'.skippedNodes = frame.skippedNodes ++ ahead ∧
      ∀ x ∈ ahead, Relation.TransGen (fun a b => b ∈ d.adjacency a) nid x) :
    LoopInv d qualifier before (done ++ [nid]) frame'
      (state.record (qualifyId qualifier nid) r) world := by
  have ha : ∀ x, frame'.taskOf x = frame.taskOf x := by
    intro x
    unfold Frame.taskOf
    rw [htasks]
  have ho : ∀ x, frame'.childOf x = frame.childOf x := by
    intro x
    unfold Frame.childOf
    rw [hd]
  have hsame : ∀ p, frame'.taskAt p = frame.taskAt p := by
    intro p
    match p with
    | [] => rfl
    | [x] => exact ha x
    | x :: y :: rest => rw [Frame.taskAt, Frame.taskAt, ho]
  obtain ⟨htask, hchild, hentries⟩ := h.fresh nid (notMem_done horder hcut)
  have hown : ∀ t, ¬ frame'.Owns nid t := by
    rintro t (hself | ⟨child, inner, w, hb, -⟩)
    · simp [ha, htask] at hself
    · simp [ho, hchild] at hb
  refine h.extend horder hcut ⟨hqualifier, fun x _ => ha x, fun x _ => ho x, ?_,
    hskip⟩ ⟨[(_, r)], rfl⟩ (h.wf.record _ _) ⟨?_, ?_, ?_, ?_⟩
  · intro x _
    rw [he]
  · apply recordedAs_record
    rw [hnone, ha, htask]
    rfl
  · exact ⟨[], by simp, fun p t ht => .inl ((hsame p).symm.trans ht)⟩
  · intro hn p q t s hp hq hid
    rw [hsame] at hp hq
    exact (cons.inj (h.distinct hn _ _ t s hp hq hid)).2
  · intro _
    refine ⟨soundNode_of_none ((ha nid).trans htask) ((ho nid).trans hchild),
      holds_of_none ?_ hown, ?_⟩
    · unfold contributes
      rw [he, hentries]
      simp
    · intro c hc
      simp [ho, hchild] at hc

theorem LoopInv.task (horder : WalkOrder d order) (hcut : order = done ++ nid :: rest) {t : Task}
    (hr : r.taskId = some t.id.text) (htype : d.typeOf? nid = some .task)
    (hlive : nid ∉ frame.skippedNodes) (hqualifier : frame'.qualifier = frame.qualifier)
    (htasks : frame'.tasks = frame.tasks ++ [(nid, t)]) (hd : frame'.children = frame.children)
    (he : frame'.nodeTaskIds = (nid, .one t.id.text) :: frame.nodeTaskIds)
    (hskip : frame'.skippedNodes = frame.skippedNodes) (hdeps : t.dependencies =
      d.findUpstreamTaskIds nid frame.nodeTaskIds frame.skippedNodes)
    (hcreated : world'.created = world.created ++ [t]) :
    LoopInv d qualifier before (done ++ [nid]) frame'
      (state.record (qualifyId qualifier nid) r) world' := by
  have hnew := notMem_done horder hcut
  obtain ⟨htask, hchild, -⟩ := h.fresh nid hnew
  have hf : ∀ x, frame'.taskOf x = if x = nid then some t else frame.taskOf x := by
    intro x
    unfold Frame.taskOf
    rw [htasks]
    exact lookup_snoc htask
  have ho : ∀ x, frame'.childOf x = frame.childOf x := by
    intro x
    unfold Frame.childOf
    rw [hd]
  have hself : frame'.taskOf nid = some t := by rw [hf, if_pos rfl]
  have hat : ∀ p s, frame'.taskAt p = some s → frame.taskAt p = some s ∨ s = t ∧ p = [nid] := by
    intro p s hp
    match p with
    | [] => cases hp
    | [x] =>
      rw [Frame.taskAt, hf] at hp
      split at hp
      next heq => exact .inr ⟨(Option.some.inj hp).symm, by rw [heq]⟩
      next => exact .inl hp
    | x :: y :: rest =>
      rw [Frame.taskAt, ho] at hp
      exact .inl hp
  have hown : ∀ s, frame'.Owns nid s ↔ s = t := by
    intro s
    constructor
    · rintro (hmine | ⟨child, inner, w, hb, -⟩)
      · exact (Option.some.inj (hself.symm.trans hmine)).symm
      · simp [ho, hchild] at hb
    · rintro rfl
      exact .inl hself
  have hturn : Turned d nid frame frame' := by
    refine ⟨hqualifier, ?_, fun x _ => ho x, ?_, [], by rw [hskip]; simp, by simp⟩
    · intro x hx
      rw [hf, if_neg hx]
    · intro x hx
      rw [he, lookup_cons, if_neg hx]
  refine h.extend horder hcut hturn ⟨[(_, r)], rfl⟩ (h.wf.record _ _) ⟨?_, ?_, ?_, ?_⟩
  · apply recordedAs_record
    rw [hr, hself]
    rfl
  · refine ⟨[t], hcreated, fun p s hp => ?_⟩
    rcases hat p s hp with hold | ⟨rfl, rfl⟩
    · exact .inl hold
    · exact .inr ⟨mem_singleton_self _, rfl⟩
  · intro hn p q a b hp hq hid
    have hold : ∀ l c, frame'.taskAt (nid :: l) = some c → l = [] := by
      intro l c hl
      cases l with
      | nil => rfl
      | cons y rest => simp [Frame.taskAt, ho, hchild] at hl
    rw [hold p a hp, hold q b hq]
  · intro hkeys
    have hbefore : ∀ a, Relation.TransGen (fun a b => b ∈ d.adjacency a) a nid → a ∈ done :=
      fun a ha => horder.before_transGen hcut ha
    have hsnd : ∀ a ∈ done, SoundNode world.created d frame a ∧ Holds d frame a :=
      fun a ha =>
        have hall := h.sound (nodup_cons.1 hkeys).2 a ha
        ⟨hall.1, hall.2.1⟩
    have hagree : ∀ a ∈ done, Agree frame frame' a := fun a ha => hturn.agree horder hcut ha
    refine ⟨⟨?_, ?_, ?_⟩, ?_, ?_⟩
    · intro s hs
      obtain rfl := (hown s).1 (.inl hs)
      refine ⟨by rw [hcreated]; simp, by simpa [isType] using htype, ?_, ?_⟩
      · rw [hskip]
        exact hlive
      · rw [ho, hchild]
    · intro c hc
      simp [ho, hchild] at hc
    · -- the hops of the search, read along the edges and by owners
      intro s hs id
      obtain rfl := (hown s).1 (.inl hs)
      rw [hdeps, mem_findUpstreamTaskIds]
      apply exists_congr
      intro y
      rw [hops_iff]
      have hpath : Reach.Through d.adjacency
            (fun a => a ∉ frame.skippedNodes ∧ d.contributes frame.nodeTaskIds a = false)
            y nid ↔
          Reach.Through d.adjacency
            (fun n => n ∉ frame'.skippedNodes ∧ ∀ t, ¬ frame'.Owns n t) y nid := by
        refine Reach.Through.congr fun a ha => ?_
        have hdone := hbefore a ha
        rw [hskip]
        refine and_congr_right fun _ => ?_
        rw [← Bool.not_eq_true, (hsnd a hdone).2.contributes, not_exists]
        exact forall_congr' fun t => not_congr ((hagree a hdone).owns t).symm
      rw [hpath]
      constructor
      · rintro ⟨⟨ht, -⟩, hin⟩
        have hdone := hbefore y ht.transGen
        obtain ⟨u, hu, huid⟩ := ((hsnd y hdone).2.contributed id).1 hin
        exact ⟨ht, u, ((hagree y hdone).owns u).2 hu, huid⟩
      · rintro ⟨ht, u, hu, huid⟩
        have hdone := hbefore y ht.transGen
        have hu' := ((hagree y hdone).owns u).1 hu
        refine ⟨⟨ht, ?_⟩, ((hsnd y hdone).2.contributed id).2 ⟨u, hu', huid⟩⟩
        rcases hu' with hmine | ⟨child, inner, w, hb, -⟩
        · exact ((hsnd y hdone).1.task u hmine).2.2.1
        · exact (hsnd y hdone).1.child _ hb
    · refine holds_of_some htype rfl (by rw [he, lookup_cons, if_pos rfl])
        ⟨t, (hown t).2 rfl⟩ fun id => ?_
      rw [TaskIds.flatten, mem_singleton]
      constructor
      · rintro rfl
        exact ⟨t, (hown t).2 rfl, rfl⟩
      · rintro ⟨s, hs, rfl⟩
        rw [(hown s).1 hs]
    · intro c hc
      simp [ho, hchild] at hc

theorem LoopInv.subworkflow
    (horder : WalkOrder d order) (hcut : order = done ++ nid :: rest) {child : WorkflowDefinition}
    {inner : Frame} {terminalIds : List String} (hr : r.taskId = none)
    (htype : d.typeOf? nid = some .subworkflow) (hlive : nid ∉ frame.skippedNodes)
    (hqualifier : frame'.qualifier = frame.qualifier) (htasks : frame'.tasks = frame.tasks)
    (hd : frame'.children = frame.children ++ [(nid, child, inner)])
    (he : frame'.nodeTaskIds =
      if terminalIds ≠ [] then (nid, .many terminalIds) :: frame.nodeTaskIds
      else frame.nodeTaskIds) (hskip : frame'.skippedNodes = frame.skippedNodes)
    (hterm : terminalIds =
      collectTerminalTaskIds child (qualifyId qualifier nid) state')
    (hspec : FrameSpec child (qualifyId qualifier nid) state world inner state' world') :
    LoopInv d qualifier before (done ++ [nid]) frame'
      (state'.record (qualifyId qualifier nid) r) world' := by
  have hnew := notMem_done horder hcut
  obtain ⟨htask, hchild, hentries⟩ := h.fresh nid hnew
  have ha : ∀ x, frame'.taskOf x = frame.taskOf x := by
    intro x
    unfold Frame.taskOf
    rw [htasks]
  have ho : ∀ x, frame'.childOf x =
      if x = nid then some (child, inner) else frame.childOf x := by
    intro x
    unfold Frame.childOf
    rw [hd]
    exact lookup_snoc hchild
  have hself : frame'.childOf nid = some (child, inner) := by rw [ho, if_pos rfl]
  have hins : ∀ p t, frame'.taskAt (nid :: p) = some t → inner.taskAt p = some t := by
    intro p t hp
    cases p with
    | nil => simp [Frame.taskAt, ha, htask] at hp
    | cons y rest =>
      rw [taskAt_cons hself] at hp
      exact hp
  have hat : ∀ p t, frame'.taskAt p = some t → frame.taskAt p = some t ∨
      ∃ p', p = nid :: p' ∧ inner.taskAt p' = some t := by
    intro p t hp
    rcases p with _ | ⟨x, _ | ⟨y, rest⟩⟩
    · cases hp
    · rw [Frame.taskAt, ha] at hp
      exact .inl hp
    · by_cases hx : x = nid
      · subst hx
        exact .inr ⟨_, rfl, hins _ t hp⟩
      · rw [Frame.taskAt, ho, if_neg hx] at hp
        exact .inl hp
  have howns : ∀ t, frame'.Owns nid t ↔ ∃ w, inner.EndsIn child w t := by
    intro t
    constructor
    · rintro (hmine | ⟨child', inner', w, hb, hend⟩)
      · simp [ha, htask] at hmine
      · obtain ⟨rfl, rfl⟩ := Prod.mk.inj (Option.some.inj (hself.symm.trans hb))
        exact ⟨w, hend⟩
    · rintro ⟨w, hend⟩
      exact .inr ⟨child, inner, w, hself, hend⟩
  have hlook : ∀ x, x ≠ nid → frame'.nodeTaskIds.lookup x = frame.nodeTaskIds.lookup x := by
    intro x hx
    rw [he]
    split
    · rw [lookup_cons, if_neg hx]
    · rfl
  obtain ⟨made, hmade, hloc⟩ := hspec.located
  obtain ⟨records, hrecs⟩ := hspec.records
  refine h.extend horder hcut ⟨hqualifier, fun x _ => ha x, ?_, hlook, [],
    by rw [hskip]; simp, by simp⟩ ⟨(qualifyId qualifier nid, r) :: records, ?_⟩
    (hspec.wf.record _ _) ⟨?_, ⟨made, hmade, ?_⟩, ?_, ?_⟩
  · intro x hx
    rw [ho, if_neg hx]
  · show (_, r) :: state'.nodeExecMap = _
    rw [hrecs]
    rfl
  · apply recordedAs_record
    rw [hr, ha, htask]
    rfl
  · intro p t hp
    rcases hat p t hp with hold | ⟨p', rfl, hin⟩
    · exact .inl hold
    · exact .inr ⟨hloc p' t hin, rfl⟩
  · intro hn p q t s hp hq hid
    exact hspec.distinct hn p q t s (hins p t hp) (hins q s hq) hid
  · intro hkeys
    have hkeys' : state'.keys.Nodup := (nodup_cons.1 hkeys).2
    have hb := hspec.sound hkeys'
    have hi : ∀ id, id ∈ terminalIds ↔ ∃ t, frame'.Owns nid t ∧ t.id.text = id := by
      intro id
      rw [hterm, mem_collectTerminalTaskIds hspec.wf hkeys' hspec.recorded hb.here.node]
      constructor
      · rintro ⟨w, t, hend, hid⟩
        exact ⟨t, (howns t).2 ⟨w, hend⟩, hid⟩
      · rintro ⟨t, hown, hid⟩
        obtain ⟨w, hend⟩ := (howns t).1 hown
        exact ⟨w, t, hend, hid⟩
    refine ⟨⟨?_, ?_, ?_⟩, ?_, ?_⟩
    · intro t ht
      simp [ha, htask] at ht
    · intro c _
      rw [hskip]
      exact hlive
    · intro t ht
      simp [ha, htask] at ht
    · by_cases hnone : terminalIds = []
      · rw [if_neg (by simpa using hnone)] at he
        refine holds_of_none ?_ fun t ht => ?_
        · unfold contributes
          rw [he, hentries]
          simp
        · have hin := (hi t.id.text).2 ⟨t, ht, rfl⟩
          simp [hnone] at hin
      · rw [if_pos hnone] at he
        obtain ⟨id, hid⟩ := exists_mem_of_ne_nil _ hnone
        obtain ⟨t, ht, -⟩ := (hi id).1 hid
        have hmine : frame'.nodeTaskIds.lookup nid = some (.many terminalIds) := by
          rw [he, lookup_cons, if_pos rfl]
        exact holds_of_some htype rfl hmine ⟨t, ht⟩ hi
    · intro c hc
      obtain rfl := Option.some.inj (hself.symm.trans hc)
      exact hb

end

end Step

theorem loopInv_nil {world : World} (hwf : state.Wf) :
    LoopInv d qualifier world [] { depth := depth, qualifier := qualifier, vars := vars }
      state world := by
  have hnone : ∀ p t, Frame.taskAt
      { depth := depth, qualifier := qualifier, vars := vars } p ≠ some t := by
    intro p t
    match p with
    | [] => exact fun h => by cases h
    | [x] => exact fun h => by cases h
    | x :: y :: rest => exact nofun
  refine ⟨rfl, hwf, ⟨[], by simp, fun p t hp => absurd hp (hnone p t)⟩, ?_, ?_, ?_, ?_⟩
  · exact fun _ p q t s hp => absurd hp (hnone p t)
  · exact fun v hv => by cases hv
  · exact fun v _ => ⟨rfl, rfl, rfl⟩
  · exact nofun

-- ==== the walk

/-- STEP LEMMA: a round keeps the invariant. -/
theorem LoopInv.step {walkChild : WalkChild}
    (hchild : ∀ child depth qualifier vars state world inner state' world',
      walkChild child depth qualifier vars state world = .ok (inner, state') world' →
        state.Wf → FrameSpec child qualifier state world inner state' world')
    {qualifier nid : String} {before world world' : World} {order done rest : List String}
    {frame frame' : Frame} (ho : WalkOrder d order) (hcut : order = done ++ nid :: rest)
    (h : LoopInv d qualifier before done frame state world)
    (hstep : walkNode svc req walkChild d (frame, state) nid world =
      .ok (frame', state') world') :
    LoopInv d qualifier before (done ++ [nid]) frame' state' world' := by
  obtain rfl := h.qualified
  obtain ⟨node, hnode, ⟨-, rfl, hpair⟩ |
    ⟨hlive, handled, state₁, nodeExecution, hhand, hpair⟩⟩ := walkNode_cases hstep
  · obtain ⟨rfl, rfl⟩ := Prod.mk.inj hpair
    exact h.idle ho hcut rfl rfl rfl rfl rfl ⟨[], by simp, by simp⟩
  · obtain ⟨rfl, rfl⟩ := Prod.mk.inj hpair
    have ht : d.typeOf? nid = some node.type := by
      unfold typeOf?
      rw [hnode]
      rfl
    cases hhand with
    | plain pending _ _ => exact h.idle ho hcut rfl rfl rfl rfl rfl ⟨[], by simp, by simp⟩
    | decision taken _ _ =>
      exact h.idle ho hcut rfl rfl rfl rfl rfl ⟨_, rfl, fun x hx => transGen_of_skippedBy hx⟩
    | task data t _ pending htype hdeps hc =>
      exact h.task ho hcut rfl (ht.trans (by rw [htype])) hlive rfl rfl rfl rfl rfl
        (hc.dependencies.trans hdeps) hc.created
    | subworkflow child inputs vars inner _ _ terminalIds htype _ hwalk hterm =>
      exact h.subworkflow ho hcut rfl (ht.trans (by rw [htype])) hlive rfl rfl rfl
        rfl rfl hterm (hchild _ _ _ _ _ _ _ _ _ hwalk h.wf)

/-- RUN LEMMA: a walk that returned left a frame as `FrameSpec` says. -/
theorem walkFrame_spec {levels : Nat} {world world' : World}
    (h : walkFrame svc req levels d depth qualifier vars state world =
      .ok (frame, state') world') (hwf : state.Wf) :
    FrameSpec d qualifier state world frame state' world' := by
  have hn : ∀ (walkChild : WalkChild)
      (_ : ∀ child depth qualifier vars state world inner state' world',
        walkChild child depth qualifier vars state world = .ok (inner, state') world' →
          state.Wf → FrameSpec child qualifier state world inner state' world')
      (d : WorkflowDefinition) (depth : Nat) (qualifier : String) (vars : Vars)
      (state state' : WalkState) (frame : Frame) (world world' : World), state.Wf →
      walkNodes svc req walkChild d depth qualifier vars state world =
        .ok (frame, state') world' →
      (∃ records, state'.nodeExecMap = records ++ state.nodeExecMap) →
        FrameSpec d qualifier state world frame state' world' := by
    intro walkChild hchild d depth qualifier vars state state' frame world world' hwf h hrecs
    obtain ⟨order, hsort, hloop⟩ := walkNodes_ok h
    have ho := topologicalSort_order hsort
    have hinv := Raise.foldlM_ok (P := fun done (at_ : Frame × WalkState) (w : World) =>
      LoopInv d qualifier world done at_.1 at_.2 w)
      (fun done nid rest hcut _ _ _ _ hP hstep => hP.step hchild ho hcut hstep) ?_ hloop
    · refine ⟨hrecs, hinv.wf, hinv.located, hinv.distinct, ?_, fun hkeys => ?_⟩
      · exact fun v hv => hinv.recorded v ((ho.mem v).2 hv)
      · refine sound_of_below ⟨⟨order, ho⟩, fun v => ?_⟩ fun v c hc => ?_
        · by_cases hv : v ∈ order
          · exact (hinv.sound hkeys v hv).1
          · exact soundNode_of_none (hinv.fresh v hv).1 (hinv.fresh v hv).2.1
        · by_cases hv : v ∈ order
          · exact (hinv.sound hkeys v hv).2.2 c hc
          · simp [(hinv.fresh v hv).2.1] at hc
    · exact loopInv_nil hwf
  induction levels generalizing d depth qualifier vars state state' frame world world' with
  | zero =>
    obtain ⟨-, records, -, hrecs, -⟩ := walk_accounted h
    refine hn _ ?_ d depth qualifier vars state state' frame world world' hwf h ⟨records, hrecs⟩
    intro _ _ _ _ _ _ _ _ _ hchild
    exact absurd hchild Raise.throw_ok
  | succ levels ih =>
    obtain ⟨-, records, -, hrecs, -⟩ := walk_accounted h
    refine hn _ ?_ d depth qualifier vars state state' frame world world' hwf h ⟨records, hrecs⟩
    intro _ _ _ _ _ _ _ _ _ hchild hwf
    exact ih hchild hwf

end

open Synthorg.Core Lib TaskEngine Raise

variable {svc : Service} {req : ActivationRequest} {d : WorkflowDefinition}

-- ==== ids

def Service.FreshIds (svc : Service) : Prop :=
  ∀ i j env env', svc.creation i = some env → svc.creation j = some env' →
    env.newId.text = env'.newId.text → i = j

def Supplied (svc : Service) (created : List Task) : Prop :=
  ∀ k t, created[k]? = some t → ∃ env, svc.creation k = some env ∧ t.id = env.newId

theorem Supplied.snoc {data : CreateTaskData} {world world' : World} {t : Task}
    (h : Supplied svc world.created) (hc : Created svc data world t world') :
    Supplied svc world'.created := by
  intro k s hk
  rw [hc.created] at hk
  by_cases hlt : k < world.created.length
  · rw [getElem?_append_left hlt] at hk
    exact h k s hk
  · rw [getElem?_append_right (by omega)] at hk
    obtain ⟨hlast, hsame⟩ := List.getElem?_eq_some_iff.1 hk
    have hk : k = world.created.length := by
      rw [length_singleton] at hlast
      omega
    subst hk
    have hself : t = s := by simpa using hsame
    exact hself ▸ hc.supplied

theorem walk_supplied {levels : Nat} {depth : Nat} {qualifier : String} {vars : Vars}
    {state state' : WalkState} {frame : Frame} {world world' : World}
    (h : walkFrame svc req levels d depth qualifier vars state world =
      .ok (frame, state') world') (hs : Supplied svc world.created) :
    Supplied svc world'.created := by
  refine walk_follows (R := fun s t => Supplied svc s.2.created → Supplied svc t.2.created)
    (fun _ h => h) (fun _ _ _ hst htu h => htu (hst h)) ?_ h hs
  rintro key s t hr -
  cases hr with
  | plain state world nodeExecution _ => exact fun h => h
  | task state data task world world' hc => exact fun h => h.snoc hc

theorem Supplied.nodup {created : List Task} (h : Supplied svc created)
    (hf : svc.FreshIds) : (created.map (·.id.text)).Nodup := by
  rw [nodup_iff_injective_getElem]
  rintro ⟨i, hi⟩ ⟨j, hj⟩ heq
  rw [length_map] at hi hj
  dsimp only at heq
  rw [getElem_map, getElem_map] at heq
  obtain ⟨env, henv, hid⟩ := h i _ (getElem?_eq_getElem hi)
  obtain ⟨env', henv', hid'⟩ := h j _ (getElem?_eq_getElem hj)
  rw [hid, hid'] at heq
  exact Fin.ext (hf i j env env' henv henv' heq)

-- ==== the order of an activation

/-- AN ACTIVATION that starts with no task of its own: each dependency of a task it created is
the id of one created earlier; and where its walk recorded no two nodes under one qualified id,
it keeps the order of the graph exactly when it hands on what order promises. -/
theorem activate_keepsOrder_iff (svc : Service) (req : ActivationRequest)
    (definitionId : String) (context : Vars) (world : World)
    (hstart : world.created = []) (hfresh : svc.FreshIds) :
    Earlier (left (activate svc req definitionId context world)).created ∧
      ∀ d frame state walked, loadAndValidate svc definitionId = .ok d →
        walkFrame svc req svc.maxSubworkflowDepth d 0 "" context {} world =
            .ok (frame, state) walked →
          state.keys.Nodup → (KeepsOrder walked.created d frame ↔ HandsOn d frame) := by
  refine ⟨activate_earlier definitionId context hstart, ?_⟩
  intro d frame state walked _ hwalk hkeys
  have hspec := walkFrame_spec hwalk WalkState.wf_empty
  have hsupplied : Supplied svc walked.created := by
    refine walk_supplied hwalk ?_
    rw [hstart]
    intro k t hk
    cases hk
  have hunique := hsupplied.nodup hfresh
  exact keepsOrder_iff_handsOn (hspec.sound hkeys) hunique (hspec.distinct hunique)

-- ==== a graph between tasks

def threeIds : List Uuid :=
  [⟨"00000000-0000-4000-8000-000000000011", by decide⟩,
    ⟨"00000000-0000-4000-8000-000000000012", by decide⟩,
    ⟨"00000000-0000-4000-8000-000000000013", by decide⟩]

/-- A child graph of one TASK node. -/
def innerGraph : WorkflowDefinition where
  id := plainId
  revision := 1
  nodes := [plainNode "start" .start [] notBlank_start,
    plainNode "inner" .task [("title", .text "Inner")] (by decide),
    plainNode "end" .end [] notBlank_end]
  edges := [plainEdge "start" "inner" .sequential,
    plainEdge "inner" "end" .sequential]
  revision_pos := Nat.zero_lt_one
  nodeIds_nodup := by decide
  edgeIds_nodup := by decide
  edge_references := by decide
  one_start := by decide
  one_end := by decide

/-- A TASK node, that child graph, and a second TASK node. -/
def crossingGraph : WorkflowDefinition where
  id := plainId
  revision := 1
  nodes := [plainNode "start" .start [] notBlank_start,
    plainNode "first" .task [("title", .text "First")] notBlank_first,
    plainNode "graph" .subworkflow
      [("subworkflow_id", .text "inner"), ("version", .text "1.0.0"),
        ("input_bindings", .mapping [] "\x7b\x7d"), ("output_bindings", .mapping [] "\x7b\x7d")]
      (by decide),
    plainNode "second" .task [("title", .text "Second")] notBlank_second,
    plainNode "end" .end [] notBlank_end]
  edges := [plainEdge "start" "first" .sequential,
    plainEdge "first" "graph" .sequential,
    plainEdge "graph" "second" .sequential,
    plainEdge "second" "end" .sequential]
  revision_pos := Nat.zero_lt_one
  nodeIds_nodup := by decide
  edgeIds_nodup := by decide
  edge_references := by decide
  one_start := by decide
  one_end := by decide

/-- `literalService` with both graphs, and an engine that creates three tasks. -/
def crossingService : Service :=
  { literalService with
    definitionRepo := fun _ => some crossingGraph
    subworkflowRegistry := some fun _ _ => some innerGraph
    creation := fun n => threeIds[n]?.map fun id => { newId := id, now := 0 } }

theorem crossingService_freshIds : crossingService.FreshIds := by
  intro i j env env' hi hj hid
  obtain ⟨a, ha, rfl⟩ := Option.map_eq_some_iff.1 hi
  obtain ⟨b, hb, rfl⟩ := Option.map_eq_some_iff.1 hj
  have hn : (threeIds.map Uuid.text).Nodup := by decide
  obtain ⟨hl, rfl⟩ := List.getElem?_eq_some_iff.1 ha
  obtain ⟨ht, rfl⟩ := List.getElem?_eq_some_iff.1 hb
  have hi' : i < (threeIds.map Uuid.text).length := by simpa using hl
  have hj' : j < (threeIds.map Uuid.text).length := by simpa using ht
  have hmap : (threeIds.map Uuid.text)[i] = (threeIds.map Uuid.text)[j] := by
    rw [getElem_map, getElem_map]
    exact hid
  exact hn.getElem_inj_iff.1 hmap

/-- What the walk of `crossingGraph` leaves, by the ids of its tasks. -/
def crossingShape (frame : Frame) (state : WalkState) (walked : World) : Bool :=
  state.keys.Nodup ∧ frame.skippedNodes = [] ∧
    (frame.taskOf "first").map (·.id.text) = some "00000000-0000-4000-8000-000000000011" ∧
      (frame.taskOf "second").map (·.id.text) = some "00000000-0000-4000-8000-000000000013" ∧
        walked.created.map (fun t => (t.id.text, t.dependencies)) =
          [("00000000-0000-4000-8000-000000000011", []),
            ("00000000-0000-4000-8000-000000000012", []),
            ("00000000-0000-4000-8000-000000000013",
              ["00000000-0000-4000-8000-000000000012"])]

theorem crossingGraph_evaluates :
    (match walkFrame crossingService ⟨"project", "user"⟩ 16 crossingGraph 0 "" [] {} emptyWorld with
      | .ok (frame, state) walked => crossingShape frame state walked
      | .error _ _ => false) = true := by
  decide +kernel

/-- The second task depends on the child's, which depends on none. -/
theorem crossingGraph_walk : ∃ frame state walked,
    walkFrame crossingService ⟨"project", "user"⟩ 16 crossingGraph 0 "" [] {} emptyWorld =
        .ok (frame, state) walked ∧ crossingShape frame state walked = true := by
  have heval := crossingGraph_evaluates
  cases hwalk : walkFrame crossingService ⟨"project", "user"⟩ 16 crossingGraph 0 "" [] {}
      emptyWorld with
  | error e walked => simp [hwalk] at heval
  | ok result walked =>
    rw [hwalk] at heval
    exact ⟨result.1, result.2, walked, rfl, heval⟩

/-- The path between them crosses a SUBWORKFLOW node, so the second does not depend on the first. -/
theorem order_lost_across_subworkflow :
    loadAndValidate crossingService "workflow" = .ok crossingGraph ∧
      ∃ frame state walked,
        walkFrame crossingService ⟨"project", "user"⟩ 16 crossingGraph 0 "" [] {} emptyWorld =
            .ok (frame, state) walked ∧
          state.keys.Nodup ∧ ¬ KeepsOrder walked.created crossingGraph frame := by
  obtain ⟨frame, state, walked, hwalk, hshape⟩ := crossingGraph_walk
  unfold crossingShape at hshape
  rw [decide_eq_true_eq] at hshape
  obtain ⟨hkeys, hskipped, hfirst, hsecond, hcreated⟩ := hshape
  refine ⟨by rfl, frame, state, walked, hwalk, hkeys, fun hkeeps => ?_⟩
  obtain ⟨first, hfirst, hf⟩ := Option.map_eq_some_iff.1 hfirst
  obtain ⟨second, hsecond, hs⟩ := Option.map_eq_some_iff.1 hsecond
  have hpath : LivePath crossingGraph frame "first" "second" := by
    have hedge : Reach.Through crossingGraph.adjacency (· ∉ frame.skippedNodes) "first"
        "graph" := .edge _ (by decide)
    exact .step _ _ hedge (by rw [hskipped]; simp) (by decide)
  have hchain := hkeeps [] crossingGraph frame rfl "second" "first" [] second first hsecond
    hfirst hpath
  -- whatever the second task depends on is the child's
  have honly : ∀ a b, DependsOn walked.created a b → a = "00000000-0000-4000-8000-000000000013" ∧
        b = "00000000-0000-4000-8000-000000000012" := by
    rintro a b ⟨t, ht, rfl, hb⟩
    have hmem : (t.id.text, t.dependencies) ∈
        walked.created.map (fun t => (t.id.text, t.dependencies)) :=
      mem_map.2 ⟨t, ht, rfl⟩
    rw [hcreated] at hmem
    simp only [mem_cons, not_mem_nil, or_false, Prod.mk.injEq] at hmem
    rcases hmem with ⟨-, hdeps⟩ | ⟨-, hdeps⟩ | ⟨hid, hdeps⟩
    · simp [hdeps] at hb
    · simp [hdeps] at hb
    · rw [hdeps] at hb
      exact ⟨hid, mem_singleton.1 hb⟩
  obtain ⟨last, -, hlast⟩ := Relation.TransGen.tail'_iff.1 hchain
  have hwrong := (honly _ _ hlast).2
  rw [hf] at hwrong
  exact absurd hwrong (by decide)

/-- The exact condition, at that walk. -/
theorem activate_keepsOrder_iff_crossing :
    Earlier (left (activate crossingService ⟨"project", "user"⟩ "workflow" [] emptyWorld)).created ∧
      ∃ frame state walked,
        walkFrame crossingService ⟨"project", "user"⟩ 16 crossingGraph 0 "" [] {} emptyWorld =
            .ok (frame, state) walked ∧
          (KeepsOrder walked.created crossingGraph frame ↔ HandsOn crossingGraph frame) := by
  obtain ⟨frame, state, walked, hwalk, hshape⟩ := crossingGraph_walk
  unfold crossingShape at hshape
  rw [decide_eq_true_eq] at hshape
  obtain ⟨hearlier, hiff⟩ := activate_keepsOrder_iff crossingService ⟨"project", "user"⟩
    "workflow" [] emptyWorld rfl crossingService_freshIds
  exact ⟨hearlier, frame, state, walked, hwalk,
    hiff crossingGraph frame state walked rfl hwalk hshape.1⟩

end Synthorg.Workflow
