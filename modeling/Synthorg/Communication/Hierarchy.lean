/-
The reporting hierarchy of a company (communication/hierarchy.py).

Explicit reporting lines override what the teams say. What the teams say of an agent is
whatever they say first, although the lead of a member ranks above the head of a lead.
-/
import Mathlib.Data.Finset.Card
import Mathlib.Order.WellFounded

namespace Synthorg.Communication.Hierarchy

open List
open Function (update)

-- ==== the two maps

structure ReportingLine where
  subordinate : String
  supervisor : String
  subordinateId : Option String
  supervisorId : Option String

def ReportingLine.subordinateKey (line : ReportingLine) : String :=
  line.subordinateId.getD line.subordinate

def ReportingLine.supervisorKey (line : ReportingLine) : String :=
  line.supervisorId.getD line.supervisor

structure Team where
  lead : String
  members : List String

structure Department where
  head : Option String
  teams : List Team
  reportingLines : List ReportingLine

/-- `supervisor_of`, its keys in order, and `reports_of`, which is its inverse. -/
structure Maps where
  supervisorOf : String → Option String := fun _ => none
  agents : List String := []
  reportsOf : String → Option (List String) := fun _ => none
  keys : ∀ a, supervisorOf a ≠ none → a ∈ agents := by simp
  nodup : ∀ s, ((reportsOf s).getD []).Nodup := by simp
  inverse : ∀ s a, a ∈ (reportsOf s).getD [] ↔ supervisorOf a = some s := by simp

namespace Maps

variable (maps : Maps) (sub sup : String)

def reports : List String := (maps.reportsOf sup).getD []

def assign : Maps :=
  if h : maps.supervisorOf sub = none then
    { supervisorOf := update maps.supervisorOf sub (some sup)
      agents := if sub ∈ maps.agents then maps.agents else maps.agents ++ [sub]
      reportsOf := update maps.reportsOf sup (some (maps.reports sup ++ [sub]))
      keys := by grind [maps.keys]
      nodup := by grind [maps.nodup, maps.inverse, reports]
      inverse := by grind [maps.inverse, reports] }
  else maps

def release : Maps :=
  match h : maps.supervisorOf sub with
  | none => maps
  | some old =>
    { supervisorOf := update maps.supervisorOf sub none
      agents := maps.agents
      reportsOf := update maps.reportsOf old (some ((maps.reports old).filter (· ≠ sub)))
      keys := by grind [maps.keys]
      nodup := by grind [maps.nodup, reports, Nodup.filter]
      inverse := by grind [maps.inverse, reports] }

def override (line : ReportingLine) : Maps :=
  if maps.supervisorOf line.subordinateKey = some line.supervisorKey then maps
  else (maps.release line.subordinateKey).assign line.subordinateKey line.supervisorKey

def addTeam (head : Option String) (team : Team) : Maps :=
  team.members.foldl (fun maps member =>
      if member = team.lead then maps else maps.assign member team.lead)
    (match head with
    | some head => if team.lead = head then maps else maps.assign team.lead head
    | none => maps)

def addDepartment (dept : Department) : Maps :=
  dept.reportingLines.foldl override (dept.teams.foldl (addTeam · dept.head) maps)

/-- The walk up from an agent: nothing is the `HierarchyResolutionError`. -/
def chase (visited inStack : List String) (current : String) : Option (List String) :=
  if current ∈ visited then some inStack
  else if current ∈ inStack then none
  else match _h : maps.supervisorOf current with
    | none => some (current :: inStack)
    | some next => chase visited (current :: inStack) next
termination_by (maps.agents.toFinset \ inStack.toFinset).card
decreasing_by
  have hkey := maps.keys current (by simp [_h])
  exact Finset.card_lt_card (Finset.ssubset_iff.2 ⟨current, by simp, fun a => by
    grind [mem_toFinset]⟩)

theorem chase_of_notMem {maps : Maps} {visited inStack : List String} {current : String}
    (hv : current ∉ visited) (hin : current ∉ inStack) :
    maps.chase visited inStack current = match maps.supervisorOf current with
      | none => some (current :: inStack)
      | some next => maps.chase visited (current :: inStack) next := by
  rw [chase, if_neg hv, if_neg hin]
  split <;> simp [*]

def visit (visited : List String) (agent : String) : Option (List String) :=
  if agent ∈ visited then some visited else (maps.chase visited [] agent).map (visited ++ ·)

def detectCycles : Option (List String) := maps.agents.foldlM maps.visit []

-- ==== no cycles

variable {maps}

def Above (maps : Maps) (sup sub : String) : Prop := maps.supervisorOf sub = some sup

/-- The chain of supervisors above an agent ends. -/
def Grounded (maps : Maps) : String → Prop := Acc maps.Above

theorem Grounded.of_supervisor {a : String}
    (h : ∀ s, maps.supervisorOf a = some s → maps.Grounded s) : maps.Grounded a :=
  ⟨a, h⟩

theorem grounded_of_chase {visited inStack after : List String} {current : String}
    (hv : ∀ a ∈ visited, maps.Grounded a) (h : maps.chase visited inStack current = some after) :
    maps.Grounded current ∧ ∀ a ∈ after, a ∈ inStack ∨ maps.Grounded a := by
  fun_induction chase maps visited inStack current with
  | case1 inStack current hin =>
    cases h
    exact ⟨hv current hin, fun a => Or.inl⟩
  | case2 => cases h
  | case3 inStack current _ _ hnone =>
    cases h
    have hground : maps.Grounded current := .of_supervisor (by simp [hnone])
    exact ⟨hground, by grind⟩
  | case4 inStack current _ _ next hsome ih =>
    obtain ⟨hnext, hafter⟩ := ih h
    have hground : maps.Grounded current := .of_supervisor (by grind)
    exact ⟨hground, by grind⟩

theorem grounded_of_visits {agents visited after : List String}
    (hv : ∀ a ∈ visited, maps.Grounded a) (h : agents.foldlM maps.visit visited = some after) :
    ∀ a ∈ agents, maps.Grounded a := by
  induction agents generalizing visited with
  | nil => nofun
  | cons agent rest ih =>
    rw [foldlM_cons, visit] at h
    by_cases hin : agent ∈ visited
    · rw [if_pos hin] at h
      exact forall_mem_cons.2 ⟨hv agent hin, ih hv h⟩
    · rw [if_neg hin] at h
      obtain ⟨both, hboth, h⟩ := Option.bind_eq_some_iff.1 h
      obtain ⟨walked, hwalk, rfl⟩ := Option.map_eq_some_iff.1 hboth
      obtain ⟨hagent, hwalked⟩ := grounded_of_chase hv hwalk
      refine forall_mem_cons.2 ⟨hagent, ih (fun a ha => ?_) h⟩
      grind

theorem wellFounded_of_detect (h : maps.detectCycles ≠ none) : WellFounded maps.Above := by
  obtain ⟨after, hafter⟩ := Option.ne_none_iff_exists'.1 h
  refine ⟨fun a => Grounded.of_supervisor fun s hs => ?_⟩
  have ha : maps.Grounded a := grounded_of_visits (by simp) hafter a (maps.keys a (by simp [hs]))
  exact ha.inv hs

end Maps

def resolve (company : List Department) : Maps := company.foldl Maps.addDepartment {}

-- ==== what the sources say of an agent

variable (company : List Department) (team : Option String × Team) (a : String)

def lineNames : List String :=
  ((company.flatMap Department.reportingLines).filter (·.subordinateKey = a)).map
    ReportingLine.supervisorKey

def teams : List (Option String × Team) :=
  company.flatMap fun dept => dept.teams.map (dept.head, ·)

def leadName : Option String :=
  if a ≠ team.2.lead ∧ a ∈ team.2.members then some team.2.lead else none

def headName : Option String :=
  if a = team.2.lead ∧ team.1 ≠ some a then team.1 else none

def leads : List String :=
  (teams company).filterMap (leadName · a)

/-- What the highest of the three sources says that says anything. -/
def named : List String :=
  if lineNames company a ≠ [] then lineNames company a
  else if leads company a ≠ [] then leads company a
  else (teams company).filterMap (headName · a)

def Inverted : Prop :=
  lineNames company a = [] ∧ leads company a ≠ [] ∧
    ∃ pre team post head, teams company = pre ++ team :: post ∧
      (∀ other ∈ pre, headName other a = none ∧ leadName other a = none) ∧
      headName team a = some head ∧ head ∉ leads company a

def first : Option String :=
  (teams company).findSome? fun team => (headName team a).or (leadName team a)

namespace Maps

theorem assign_supervisorOf (maps : Maps) (sub sup : String) :
    (maps.assign sub sup).supervisorOf a = (maps.supervisorOf a).or
    (if a = sub then some sup else none) := by
  unfold assign
  split
  next hnone => by_cases heq : a = sub <;> simp [heq, hnone]
  next hsome =>
    obtain ⟨old, hold⟩ := Option.ne_none_iff_exists'.1 hsome
    by_cases heq : a = sub <;> simp [heq, hold]

theorem override_supervisorOf (maps : Maps) (line : ReportingLine) :
    (maps.override line).supervisorOf a =
      if line.subordinateKey = a then some line.supervisorKey else maps.supervisorOf a := by
  have hrel : ∀ sub, (maps.release sub).supervisorOf a =
      if a = sub then none else maps.supervisorOf a := by
    intro sub
    unfold release
    split
    next hnone => by_cases heq : a = sub <;> simp [heq, hnone]
    next => by_cases heq : a = sub <;> simp [heq]
  grind [override, assign_supervisorOf]

theorem addTeam_supervisorOf (maps : Maps) (head : Option String) (team : Team) :
    (maps.addTeam head team).supervisorOf a =
      (maps.supervisorOf a).or ((headName (head, team) a).or (leadName (head, team) a)) := by
  have hmem : ∀ (members : List String) (maps : Maps), (members.foldl (fun maps member =>
      if member = team.lead then maps else maps.assign member team.lead) maps).supervisorOf a =
      (maps.supervisorOf a).or (leadName (head, ⟨team.lead, members⟩) a) := by
    intro members
    induction members with
    | nil => simp [leadName]
    | cons member rest ih => grind [leadName, assign_supervisorOf]
  unfold addTeam
  rw [hmem, ← Option.or_assoc]
  congr 1
  cases head <;> grind [headName, assign_supervisorOf]

theorem addDepartment_supervisorOf (maps : Maps) (dept : Department) :
    (maps.addDepartment dept).supervisorOf a = (lineNames [dept] a).getLast?.or
      ((maps.supervisorOf a).or (first [dept] a)) := by
  have hlines : ∀ (lines : List ReportingLine) (maps : Maps),
      (lines.foldl override maps).supervisorOf a =
        ((lines.filter (·.subordinateKey = a)).map ReportingLine.supervisorKey).getLast?.or
          (maps.supervisorOf a) := by
    intro lines maps
    induction lines using reverseRecOn with
    | nil => rfl
    | append_singleton lines line ih =>
      rw [foldl_append, foldl_cons, foldl_nil, override_supervisorOf, ih]
      by_cases heq : line.subordinateKey = a <;> simp [heq]
  have hteams : ∀ (own : List Team) (maps : Maps),
      (own.foldl (addTeam · dept.head) maps).supervisorOf a = (maps.supervisorOf a).or
        ((own.map (dept.head, ·)).findSome? fun team =>
          (headName team a).or (leadName team a)) := by
    intro own
    induction own with
    | nil => simp
    | cons team own ih =>
      intro maps
      rw [foldl_cons, ih, addTeam_supervisorOf, map_cons, findSome?_cons, Option.or_assoc]
      cases (headName (dept.head, team) a).or (leadName (dept.head, team) a) <;> rfl
  rw [addDepartment, hlines, hteams]
  simp [lineNames, first, teams]

end Maps

theorem resolve_supervisorOf : (resolve company).supervisorOf a =
    (lineNames company a).getLast?.or (first company a) := by
  induction company using reverseRecOn with
  | nil => rfl
  | append_singleton company dept ih =>
    have hlines : lineNames (company ++ [dept]) a = lineNames company a ++ lineNames [dept] a := by
      simp [lineNames]
    have hfirst : first (company ++ [dept]) a = (first company a).or (first [dept] a) := by
      simp [first, teams]
    rw [resolve, foldl_append, foldl_cons, foldl_nil, ← resolve, Maps.addDepartment_supervisorOf,
      ih, hlines, hfirst, getLast?_append]
    simp only [Option.or_assoc]

def Ranked : Option String → Prop
  | some s => s ∈ named company a
  | none => named company a = []

theorem inverted_iff : Inverted company a ↔
    lineNames company a = [] ∧ leads company a ≠ [] ∧
      ∃ head, first company a = some head ∧ head ∉ leads company a := by
  refine and_congr_right fun _ => and_congr_right fun _ => ⟨?_, ?_⟩
  · rintro ⟨pre, team, post, head, hsplit, hpre, hhead, hout⟩
    refine ⟨head, findSome?_eq_some_iff.2 ⟨pre, team, post, hsplit, ?_, ?_⟩, hout⟩
    · rw [hhead, Option.some_or]
    · grind
  · rintro ⟨head, hfirst, hout⟩
    obtain ⟨pre, team, post, hsplit, hteam, hpre⟩ := findSome?_eq_some_iff.1 hfirst
    refine ⟨pre, team, post, head, hsplit, by grind, ?_, hout⟩
    rcases Option.or_eq_some_iff.1 hteam with hhead | ⟨-, hlead⟩
    · exact hhead
    · exact absurd (mem_filterMap.2 ⟨team, by simp [hsplit], hlead⟩) hout

theorem ranked_iff :
    Ranked company a ((resolve company).supervisorOf a) ↔ ¬ Inverted company a := by
  rw [resolve_supervisorOf, inverted_iff]
  unfold Ranked named
  cases hlast : (lineNames company a).getLast? with
  | some s =>
    have hmem := mem_of_getLast? hlast
    simp [ne_nil_of_mem hmem, hmem]
  | none =>
    rw [getLast?_eq_none_iff.1 hlast, Option.none_or]
    cases hfirst : first company a with
    | none =>
      have hnone := findSome?_eq_none_iff.1 hfirst
      have hleads : leads company a = [] :=
        filterMap_eq_nil_iff.2 fun team hmem => (Option.or_eq_none_iff.1 (hnone team hmem)).2
      have hheads : (teams company).filterMap (headName · a) = [] :=
        filterMap_eq_nil_iff.2 fun team hmem => (Option.or_eq_none_iff.1 (hnone team hmem)).1
      simp [hleads, hheads]
    | some s =>
      obtain ⟨team, hmem, hteam⟩ := exists_of_findSome?_eq_some hfirst
      by_cases hleads : leads company a = []
      · have hhead : s ∈ (teams company).filterMap (headName · a) := by
          refine mem_filterMap.2 ⟨team, hmem, ?_⟩
          rcases Option.or_eq_some_iff.1 hteam with hhead | ⟨-, hlead⟩
          · exact hhead
          · exact absurd hleads (ne_nil_of_mem (mem_filterMap.2 ⟨team, hmem, hlead⟩))
        simpa [hleads] using hhead
      · simp [hleads]

structure HierarchyResolver where
  maps : Maps
  grounded : WellFounded maps.Above

namespace HierarchyResolver

def new (company : List Department) : Option HierarchyResolver :=
  if h : (resolve company).detectCycles = none then none
  else some ⟨resolve company, Maps.wellFounded_of_detect h⟩

variable (r : HierarchyResolver)

def getSupervisor (agentName : String) : Option String := r.maps.supervisorOf agentName

def getDirectReports (agentName : String) : List String := r.maps.reports agentName

def getAncestors (agentName : String) : List String :=
  match _h : r.getSupervisor agentName with
  | none => []
  | some sup => sup :: getAncestors sup
termination_by r.grounded.wrap agentName
decreasing_by exact _h

def knownAgent (agentName : String) : Bool :=
  (r.getSupervisor agentName).isSome || (r.maps.reportsOf agentName).isSome ||
    r.maps.agents.any (r.getSupervisor · = some agentName)

def getLowestCommonManager (agentA agentB : String) : Option String :=
  if agentA = agentB then if r.knownAgent agentA then some agentA else none
  else if agentA ∈ r.getAncestors agentB then some agentA
  else if agentB ∈ r.getAncestors agentA then some agentB
  else (r.getAncestors agentA).find? (· ∈ r.getAncestors agentB)

/-- The loop of `get_delegation_depth`. -/
def depthFrom (fromAgent : String) (depth : Nat) (current : String) : Option Nat :=
  match _h : r.getSupervisor current with
  | none => none
  | some sup => if sup = fromAgent then some (depth + 1) else depthFrom fromAgent (depth + 1) sup
termination_by r.grounded.wrap current
decreasing_by exact _h

def getDelegationDepth (fromAgent toAgent : String) : Option Nat := r.depthFrom fromAgent 0 toAgent

-- ==== the walks

variable {r}

theorem getAncestors_cons {a s : String} (h : r.getSupervisor a = some s) :
    r.getAncestors a = s :: r.getAncestors s := by
  rw [getAncestors]
  split <;> simp_all

theorem getAncestors_nil {a : String} (h : r.getSupervisor a = none) : r.getAncestors a = [] := by
  rw [getAncestors]
  split <;> simp_all

theorem getAncestors_split {m : String} {post : List String} : ∀ {pre : List String} {a : String},
    r.getAncestors a = pre ++ m :: post → post = r.getAncestors m
  | pre, a, h => by
    cases hsup : r.getSupervisor a with
    | none => simp [getAncestors_nil hsup] at h
    | some s =>
      rw [getAncestors_cons hsup] at h
      cases pre with
      | nil =>
        obtain ⟨rfl, rfl⟩ := cons_eq_cons.1 h
        rfl
      | cons x pre => exact getAncestors_split (cons_eq_cons.1 h).2

theorem depthFrom_eq (f : String) {d : Nat} {t : String} :
    r.depthFrom f d t = ((r.getAncestors t).idxOf? f).map (· + (d + 1)) := by
  induction t using r.grounded.induction generalizing d with
  | _ t ih =>
    rw [depthFrom]
    split
    next hnone => rw [getAncestors_nil hnone]; rfl
    next s hsome =>
      rw [getAncestors_cons hsome, idxOf?_cons]
      by_cases heq : s = f
      · simp [heq]
      · rw [if_neg heq, ih s hsome]
        cases (r.getAncestors s).idxOf? f <;> simp [heq]; omega

/-- An agent and those above it. -/
def line (r : HierarchyResolver) (a : String) : List String := a :: r.getAncestors a

/-- A common ancestor-or-self, below every other; or there is none. -/
def Lowest (r : HierarchyResolver) (a b : String) : Option String → Prop
  | some m => (m ∈ r.line a ∧ m ∈ r.line b) ∧ ∀ c, c ∈ r.line a → c ∈ r.line b → c ∈ r.line m
  | none => ∀ c, c ∈ r.line a → c ∈ r.line b → a = b ∧ r.knownAgent a = false

theorem lowest (a b : String) : r.Lowest a b (r.getLowestCommonManager a b) := by
  rw [getLowestCommonManager]
  split
  next heq =>
    split
    next => exact ⟨⟨mem_cons_self, heq ▸ mem_cons_self⟩, fun c hc _ => hc⟩
    next hunkn => exact fun c _ _ => ⟨heq, by simpa using hunkn⟩
  next hne =>
    split
    next hab => exact ⟨⟨mem_cons_self, mem_cons_of_mem _ hab⟩, fun c hc _ => hc⟩
    next hab =>
      split
      next hba => exact ⟨⟨mem_cons_of_mem _ hba, mem_cons_self⟩, fun c _ hc => hc⟩
      next hba =>
        have hcom : ∀ c, c ∈ r.line a → c ∈ r.line b →
            c ∈ r.getAncestors a ∧ c ∈ r.getAncestors b := by
          grind [line]
        cases hfind : (r.getAncestors a).find? (· ∈ r.getAncestors b) with
        | none =>
          intro c ha hb
          obtain ⟨ha, hb⟩ := hcom c ha hb
          simpa [hb] using find?_eq_none.1 hfind c ha
        | some m =>
          obtain ⟨hm, pre, post, hsplit, hpre⟩ := find?_eq_some_iff_append.1 hfind
          have hpost := getAncestors_split hsplit
          refine ⟨⟨mem_cons_of_mem _ (by simp [hsplit]), mem_cons_of_mem _ (by simpa using hm)⟩,
            fun c ha hb => ?_⟩
          obtain ⟨ha, hb⟩ := hcom c ha hb
          rw [hsplit] at ha
          grind [line]

theorem line_antisymm {m n : String} (hm : m ∈ r.line n) (hn : n ∈ r.line m) : m = n := by
  have hs : ∀ {x y}, x ∈ r.getAncestors y →
      (r.getAncestors x).length < (r.getAncestors y).length := by
    intro x y hx
    obtain ⟨pre, post, hsplit⟩ := append_of_mem hx
    rw [hsplit, ← getAncestors_split hsplit, length_append, length_cons]
    omega
  rcases mem_cons.1 hm with heq | hm
  · exact heq
  rcases mem_cons.1 hn with heq | hn
  · exact heq.symm
  exact absurd (hs hm) (hs hn).asymm

theorem Lowest.unique {a b : String} {o o' : Option String} (h : r.Lowest a b o)
    (h' : r.Lowest a b o') (hne : a ≠ b) : o = o' := by
  cases o with
  | none =>
    cases o' with
    | none => rfl
    | some n => exact absurd (h n h'.1.1 h'.1.2).1 hne
  | some m =>
    cases o' with
    | none => exact absurd (h' m h.1.1 h.1.2).1 hne
    | some n => exact congrArg some (line_antisymm (h'.2 m h.1.1 h.1.2) (h.2 n h'.1.1 h'.1.2))

/-- The walk goes up from its first agent, and either may be the first. -/
theorem getLowestCommonManager_comm (r : HierarchyResolver) (a b : String) :
    r.getLowestCommonManager a b = r.getLowestCommonManager b a := by
  by_cases heq : a = b
  · rw [heq]
  have hba : r.Lowest a b (r.getLowestCommonManager b a) := by
    have hlow := lowest (r := r) b a
    cases hm : r.getLowestCommonManager b a with
    | none =>
      rw [hm] at hlow
      exact fun c ha hb => absurd (hlow c hb ha).1.symm heq
    | some m =>
      rw [hm] at hlow
      exact ⟨hlow.1.symm, fun c ha hb => hlow.2 c hb ha⟩
  exact (lowest a b).unique hba heq

end HierarchyResolver

/-- Cycles are refused, and of a resolver that is built everything holds but, for inverted
agents, the order of the last two sources. -/
theorem hierarchy_resolved_iff :
    ((∃ a, Relation.TransGen (resolve company).Above a a) → HierarchyResolver.new company = none) ∧
    ∀ r, HierarchyResolver.new company = some r →
      (∀ a, Ranked company a (r.getSupervisor a) ↔ ¬ Inverted company a) ∧
      (∀ s, (r.getDirectReports s).Nodup ∧
        ∀ a, a ∈ r.getDirectReports s ↔ r.getSupervisor a = some s) ∧
      (∀ a, ¬ Relation.TransGen r.maps.Above a a) ∧
      (∀ f t, r.getDelegationDepth f t = ((r.getAncestors t).idxOf? f).map (· + 1)) ∧
      ∀ a b, r.Lowest a b (r.getLowestCommonManager a b) := by
  have hc : ∀ (r : HierarchyResolver) (a : String), ¬ Relation.TransGen r.maps.Above a a :=
    fun r a h => r.grounded.transGen.irrefl.irrefl a h
  have hmaps : ∀ r, HierarchyResolver.new company = some r → r.maps = resolve company := by
    intro r h
    unfold HierarchyResolver.new at h
    split at h
    next => cases h
    next => cases h; rfl
  refine ⟨fun ⟨a, ha⟩ => Option.eq_none_iff_forall_ne_some.2 fun r hr => ?_, fun r hr => ?_⟩
  · exact hc r a (hmaps r hr ▸ ha)
  · refine ⟨fun a => ?_, fun s => ⟨r.maps.nodup s, r.maps.inverse s⟩, hc r,
      fun f t => HierarchyResolver.depthFrom_eq f, HierarchyResolver.lowest⟩
    rw [HierarchyResolver.getSupervisor, hmaps r hr]
    exact ranked_iff company a

/-- Amy leads a team, and is a member of a later one. -/
def twoRoles : List Department :=
  [⟨some "cto", [⟨"amy", []⟩], []⟩, ⟨none, [⟨"eve", ["amy"]⟩], []⟩]

theorem twoRoles_inverted : ∃ r, HierarchyResolver.new twoRoles = some r ∧
    r.getSupervisor "amy" = some "cto" ∧ ¬ Ranked twoRoles "amy" (r.getSupervisor "amy") := by
  have hagents : (resolve twoRoles).agents = ["amy"] := rfl
  have hsup : (resolve twoRoles).supervisorOf "amy" = some "cto" ∧
      (resolve twoRoles).supervisorOf "cto" = none := by
    decide
  have hcycles : (resolve twoRoles).detectCycles ≠ none := by
    simp [Maps.detectCycles, Maps.visit, hagents, Maps.chase_of_notMem, hsup]
  refine ⟨_, dif_neg hcycles, hsup.1, ?_⟩
  rw [HierarchyResolver.getSupervisor, hsup.1]
  unfold Ranked
  decide

end Synthorg.Communication.Hierarchy
