/-
What a connection to a narrowed destination may ask for.

A connection is admitted on one read of the maps and narrowed on another, with a
dial between them: narrowing holds if the second finds its destination narrowed to
what the first listed (`Steady`).
-/
import Synthorg.Sidecar.Proofs.Maps

namespace Synthorg.Sidecar

open Lib
open Function (update update_self update_of_ne)

namespace Process

variable {lib : Library} {s s' : Process} {k : Nat}

-- ==== the properties

def Meant (lib : Library) (s : Process) (k : Nat) (a : Admission) (rule : PathRule) : Prop :=
  rule ∈ s.al.rawPaths ∧ (s.dest k).port = rule.port ∧
    Resolves lib a.dns rule.host (s.dest k).ip

def Narrowed (lib : Library) (s : Process) (k : Nat) : Prop :=
  ∀ a, s.admissions k = some a → a.allowAll = false → (∃ rule, s.Meant lib k a rule) →
    s.relayedRaw k = false ∧
      ∀ path, (k, path) ∈ s.forwarded →
        Plain path.toList ∧
          ∃ rule, s.Meant lib k a rule ∧ Under path.toList rule.pathPrefix.toList

def Steady (lib : Library) (s : Process) : Input → Prop
  | .lookUp k =>
    s.conns k = .dialed → ∀ a, s.admissions k = some a → a.allowAll = false →
      (∃ rule, s.Meant lib k a rule) →
        ∃ prefixes, s.al.paths (s.dest k) = some prefixes ∧
          ∀ p ∈ prefixes, p ∈ a.prefixes.getD []
  | _ => True

-- ==== the invariant

def ConnStage.early : ConnStage → Bool
  | .absent | .accepted | .asked => true
  | _ => false

def ConnStage.passed : ConnStage → Bool
  | .admitted | .dialed | .guarded _ | .relaying _ | .raw => true
  | _ => false

def ConnStage.prefixes : ConnStage → List String
  | .guarded prefixes | .relaying prefixes => prefixes
  | _ => []

/-- THE INVARIANT, for one connection. -/
structure Guarding (lib : Library) (s : Process) (k : Nat) : Prop where
  fresh : s.admissions k = none →
    s.relayedRaw k = false ∧ (∀ path, (k, path) ∉ s.forwarded) ∧
      ConnStage.passed (s.conns k) = false
  early : ConnStage.early (s.conns k) = true → s.admissions k = none
  listed : ∀ a, s.admissions k = some a → ∀ p ∈ a.prefixes.getD [],
    ∃ rule, s.Meant lib k a rule ∧ p = rule.pathPrefix
  checked : ∀ a, s.admissions k = some a → a.allowAll = false →
    (∃ rule, s.Meant lib k a rule) →
      ∀ p ∈ ConnStage.prefixes (s.conns k), ∃ rule, s.Meant lib k a rule ∧ p = rule.pathPrefix
  narrowed : s.Narrowed lib k

theorem Guarding.same (h : Guarding lib s k) (hp : s'.al.rawPaths = s.al.rawPaths)
    (hdest : s'.dest k = s.dest k) (hconn : s'.conns k = s.conns k)
    (ha : s'.admissions k = s.admissions k) (hraw : s'.relayedRaw k = s.relayedRaw k)
    (hf : ∀ path, (k, path) ∈ s'.forwarded ↔ (k, path) ∈ s.forwarded) : Guarding lib s' k := by
  have hm : ∀ a rule, s'.Meant lib k a rule ↔ s.Meant lib k a rule := by
    intro a rule
    rw [Meant, Meant, hp, hdest]
  refine ⟨?_, ?_, ?_, ?_, ?_⟩
  · simp only [ha, hraw, hf, hconn]
    exact h.fresh
  · rw [hconn, ha]
    exact h.early
  · simp only [ha, hm]
    exact h.listed
  · simp only [ha, hm, hconn]
    exact h.checked
  · simp only [Narrowed, ha, hm, hraw, hf]
    exact h.narrowed

theorem Guarding.moved (h : Guarding lib s k) {stage : ConnStage}
    (hpaths : s'.al.rawPaths = s.al.rawPaths) (hdest : s'.dest k = s.dest k)
    (hconn : s'.conns k = stage) (hadmissions : s'.admissions k = s.admissions k)
    (hraw : s'.relayedRaw k = s.relayedRaw k) (hf : s'.forwarded = s.forwarded)
    (he : ConnStage.early stage = true → ConnStage.early (s.conns k) = true)
    (hpass : ConnStage.passed stage = true → ConnStage.passed (s.conns k) = true)
    (hprefixes : ∀ p ∈ ConnStage.prefixes stage, p ∈ ConnStage.prefixes (s.conns k)) :
    Guarding lib s' k := by
  have hm : ∀ a rule, s'.Meant lib k a rule ↔ s.Meant lib k a rule := by
    intro a rule
    rw [Meant, Meant, hpaths, hdest]
  refine ⟨?_, ?_, ?_, ?_, ?_⟩
  · rw [hadmissions, hraw, hf, hconn]
    intro hnone
    obtain ⟨hu, hunsplit, hnot⟩ := h.fresh hnone
    refine ⟨hu, hunsplit, ?_⟩
    rw [← Bool.not_eq_true]
    intro hs
    simp [hpass hs] at hnot
  · rw [hconn, hadmissions]
    exact fun hs => h.early (he hs)
  · simp only [hadmissions, hm]
    exact h.listed
  · simp only [hadmissions, hm, hconn]
    intro a ha hr hsome p hp
    exact h.checked a ha hr hsome p (hprefixes p hp)
  · simp only [Narrowed, hadmissions, hm, hraw, hf]
    exact h.narrowed

/-- What the maps list for a connection is of rules meant for it. -/
theorem Guarding.admitted (h : Guarding lib s k) (hsnd : Sound lib s)
    (he : ConnStage.early (s.conns k) = true) (allowAll : Bool) :
    Guarding lib (s.admitConn k allowAll) k := by
  obtain ⟨hu, hunsplit, -⟩ := h.fresh (h.early he)
  have hself : (s.admitConn k allowAll).admissions k = some (s.admission k allowAll) :=
    update_self ..
  have hconn : (s.admitConn k allowAll).conns k = .admitted := update_self ..
  refine ⟨?_, ?_, ?_, ?_, ?_⟩
  · intro hnone
    simp [hself] at hnone
  · intro hs
    rw [hconn] at hs
    cases hs
  · intro a ha p hp
    rw [hself, Option.some.injEq] at ha
    subst ha
    change p ∈ (s.al.paths (s.dest k)).getD [] at hp
    rw [hsnd.built.paths, mem_resolvePaths] at hp
    obtain ⟨rule, hrule, hk, hp⟩ := hp
    exact ⟨rule, ⟨hrule, hk.resolves⟩, hp⟩
  · intro a _ _ _ p hp
    rw [hconn] at hp
    cases hp
  · intro a _ _ _
    exact ⟨hu, fun path hpath => absurd hpath (hunsplit path)⟩

-- ==== the steps

theorem connections_still (lib : Library) (s : Process) {input : Input} (h : input.ofConn = false) :
    (s.step lib input).al.rawPaths = s.al.rawPaths ∧ (s.step lib input).dest = s.dest ∧
      (s.step lib input).conns = s.conns ∧ (s.step lib input).admissions = s.admissions ∧
        (s.step lib input).relayedRaw = s.relayedRaw ∧
          (s.step lib input).forwarded = s.forwarded := by
  cases input with
  | put n allowedHosts allowAll =>
    simp only [Process.step]
    split
    · rw [Process.beginPut]
      split
      · exact ⟨rfl, rfl, rfl, rfl, rfl, rfl⟩
      · exact ⟨rfl, rfl, rfl, rfl, rfl, rfl⟩
    · exact ⟨rfl, rfl, rfl, rfl, rfl, rfl⟩
  | lockPut n =>
    simp only [Process.step]
    split <;> exact ⟨rfl, rfl, rfl, rfl, rfl, rfl⟩
  | swapPut n dns =>
    simp only [Process.step]
    split <;> exact ⟨rfl, rfl, rfl, rfl, rfl, rfl⟩
  | unlockPut n =>
    simp only [Process.step]
    split <;> exact ⟨rfl, rfl, rfl, rfl, rfl, rfl⟩
  | storePut n =>
    simp only [Process.step]
    split <;> exact ⟨rfl, rfl, rfl, rfl, rfl, rfl⟩
  | lockPass n =>
    simp only [Process.step]
    split <;> exact ⟨rfl, rfl, rfl, rfl, rfl, rfl⟩
  | copyPass n =>
    simp only [Process.step]
    split <;> exact ⟨rfl, rfl, rfl, rfl, rfl, rfl⟩
  | swapPass n dns =>
    simp only [Process.step]
    split <;> exact ⟨rfl, rfl, rfl, rfl, rfl, rfl⟩
  | unlockPass n =>
    simp only [Process.step]
    split <;> exact ⟨rfl, rfl, rfl, rfl, rfl, rfl⟩
  | _ => cases h

/-- What the step of one connection leaves the others. -/
structure Apart (k : Nat) (s s' : Process) : Prop where
  rawPaths : s'.al.rawPaths = s.al.rawPaths
  dest : ∀ j, j ≠ k → s'.dest j = s.dest j
  conns : ∀ j, j ≠ k → s'.conns j = s.conns j
  admissions : ∀ j, j ≠ k → s'.admissions j = s.admissions j
  relayedRaw : ∀ j, j ≠ k → s'.relayedRaw j = s.relayedRaw j
  forwarded : ∀ j, j ≠ k → ∀ path, (j, path) ∈ s'.forwarded ↔ (j, path) ∈ s.forwarded

/-- The step of a connection keeps the invariant of all if it keeps its
own. -/
theorem Apart.guarding (h : Apart k s s') (hall : ∀ j, Guarding lib s j)
    (hself : Guarding lib s' k) (j : Nat) : Guarding lib s' j := by
  by_cases hj : j = k
  · rw [hj]
    exact hself
  · exact (hall j).same h.rawPaths (h.dest j hj) (h.conns j hj) (h.admissions j hj)
      (h.relayedRaw j hj) (h.forwarded j hj)

theorem apart_stage (k : Nat) (s : Process) (stage : ConnStage) :
    Apart k s { s with conns := update s.conns k stage } :=
  ⟨rfl, fun _ _ => rfl, fun _ hj => update_of_ne hj _ _, fun _ _ => rfl, fun _ _ => rfl,
    fun _ _ _ => Iff.rfl⟩

section
variable (hall : ∀ j, Guarding lib s j)
include hall

theorem guarding_stage (k : Nat) (stage : ConnStage)
    (he : ConnStage.early stage = true → ConnStage.early (s.conns k) = true)
    (hpass : ConnStage.passed stage = true → ConnStage.passed (s.conns k) = true)
    (hp : ∀ p ∈ ConnStage.prefixes stage, p ∈ ConnStage.prefixes (s.conns k)) (j : Nat) :
    Guarding lib { s with conns := update s.conns k stage } j :=
  (apart_stage k s stage).guarding hall
    ((hall k).moved rfl rfl (update_self ..) rfl rfl rfl he hpass hp) j

theorem guarding_closeConn (k j : Nat) : Guarding lib (s.closeConn k) j := by
  refine guarding_stage hall k .closed ?_ ?_ ?_ j
  · intro he
    cases he
  · intro hpass
    cases hpass
  · intro p hp
    cases hp

theorem guarding_admitConn (hsnd : Sound lib s)
    (he : ConnStage.early (s.conns k) = true) (allowAll : Bool) (j : Nat) :
    Guarding lib (s.admitConn k allowAll) j := by
  refine Apart.guarding (k := k) ?_ hall ((hall k).admitted hsnd he allowAll) j
  exact ⟨rfl, fun _ _ => rfl, fun _ hj => update_of_ne hj _ _,
    fun _ hj => update_of_ne hj _ _, fun _ _ => rfl, fun _ _ _ => Iff.rfl⟩

theorem guarding_accept (k : Nat) (dest : Destination) (j : Nat) :
    Guarding lib (s.step lib (.accept k dest)) j := by
  simp only [Process.step]
  split
  next hconn =>
    refine Apart.guarding (k := k) ?_ hall ?_ j
    · exact ⟨rfl, fun _ hj => update_of_ne hj _ _, fun _ hj => update_of_ne hj _ _,
        fun _ _ => rfl, fun _ _ => rfl, fun _ _ _ => Iff.rfl⟩
    · have hnone : s.admissions k = none := (hall k).early (by rw [hconn]; rfl)
      obtain ⟨hu, hunsplit, -⟩ := (hall k).fresh hnone
      refine ⟨?_, fun _ => hnone, ?_, ?_, ?_⟩
      · intro _
        refine ⟨hu, hunsplit, ?_⟩
        simp [ConnStage.passed]
      · intro a ha
        simp [hnone] at ha
      · intro a ha
        simp [hnone] at ha
      · intro a ha
        simp [hnone] at ha
  next => exact hall j

theorem guarding_loadFlag (hsnd : Sound lib s) (k j : Nat) :
    Guarding lib (s.step lib (.loadFlag k)) j := by
  simp only [Process.step]
  split
  next hconn =>
    have he : ConnStage.early (s.conns k) = true := by
      rw [hconn]
      rfl
    rw [Process.loadFlag]
    split
    · exact guarding_admitConn hall hsnd he true j
    · split
      · split
        · exact guarding_admitConn hall hsnd he false j
        · exact guarding_closeConn hall k j
      · refine guarding_stage hall k .asked (fun _ => he) ?_ ?_ j
        · intro hpass
          cases hpass
        · intro p hp
          cases hp
  next => exact hall j

theorem guarding_readMap (hsnd : Sound lib s) (k j : Nat) :
    Guarding lib (s.step lib (.readMap k)) j := by
  simp only [Process.step]
  split
  next hconn =>
    split
    · exact guarding_admitConn hall hsnd (by rw [hconn]; rfl) false j
    · exact guarding_closeConn hall k j
  next => exact hall j

theorem guarding_dial (k : Nat) (ok : Bool) (j : Nat) :
    Guarding lib (s.step lib (.dial k ok)) j := by
  simp only [Process.step]
  split
  next hconn =>
    split
    · refine guarding_stage hall k .dialed ?_ ?_ ?_ j
      · intro he
        cases he
      · intro _
        rw [hconn]
        rfl
      · intro p hp
        cases hp
    · exact guarding_closeConn hall k j
  next => exact hall j

/-- THE LOOK-UP: a steady one finds prefixes of rules meant for the
connection. -/
theorem guarding_lookUp (hs : s.Steady lib (.lookUp k))
    (j : Nat) : Guarding lib (s.step lib (.lookUp k)) j := by
  simp only [Process.step]
  split
  next hconn =>
    have hself := hall k
    have hn : s.admissions k ≠ none := by
      intro hnone
      have hpass := (hself.fresh hnone).2.2
      rw [hconn] at hpass
      cases hpass
    split
    next prefixes hpaths =>
      refine (apart_stage k s (.guarded prefixes)).guarding hall ?_ j
      refine ⟨fun hnone => absurd hnone hn, ?_, hself.listed, ?_, hself.narrowed⟩
      · intro he
        simp only [update_self] at he
        cases he
      · intro a ha hr hsome p hp
        simp only [update_self] at hp
        obtain ⟨found, hf, hlist⟩ := hs hconn a ha hr hsome
        rw [hpaths, Option.some.injEq] at hf
        rw [← hf] at hlist
        exact hself.listed a ha p (hlist p hp)
    next hpaths =>
      refine Apart.guarding (k := k) ?_ hall ?_ j
      · exact ⟨rfl, fun _ _ => rfl, fun _ hj => update_of_ne hj _ _, fun _ _ => rfl,
          fun _ hj => update_of_ne hj _ _, fun _ _ _ => Iff.rfl⟩
      · -- a rule meant for it would be in the maps
        refine ⟨fun hnone => absurd hnone hn, ?_, hself.listed, ?_, ?_⟩
        · intro he
          simp only [update_self] at he
          cases he
        · intro a _ _ _ p hp
          simp only [update_self] at hp
          cases hp
        · intro a ha hr hsome
          obtain ⟨found, hf, -⟩ := hs hconn a ha hr hsome
          rw [hpaths] at hf
          cases hf
  next => exact hall j

theorem guarding_peek (k : Nat) (tls : Bool) (j : Nat) :
    Guarding lib (s.step lib (.peek k tls)) j := by
  simp only [Process.step]
  split
  next prefixes hconn =>
    split
    · exact guarding_closeConn hall k j
    · refine guarding_stage hall k (.relaying prefixes) ?_ ?_ ?_ j
      · intro he
        cases he
      · intro _
        rw [hconn]
        rfl
      · intro p hp
        rw [hconn]
        exact hp
  next => exact hall j

theorem guarding_request (k : Nat) (path : String)
    (goesOn : Bool) (j : Nat) : Guarding lib (s.step lib (.request k path goesOn)) j := by
  simp only [Process.step]
  split
  next prefixes hconn =>
    rw [Process.relayRequest]
    split
    next hallowed =>
      have hself := hall k
      have hn : s.admissions k ≠ none := by
        intro hnone
        have hpass := (hself.fresh hnone).2.2
        rw [hconn] at hpass
        cases hpass
      have hs : ∀ p, p ∈ ConnStage.prefixes (if goesOn then .relaying prefixes else .closed) →
          p ∈ prefixes := by
        intro p hp
        split at hp
        · exact hp
        · cases hp
      refine Apart.guarding (k := k) ?_ hall ?_ j
      · refine ⟨rfl, fun _ _ => rfl, fun _ hj => update_of_ne hj _ _, fun _ _ => rfl,
          fun _ _ => rfl, ?_⟩
        intro j hj other
        simp [hj]
      · refine ⟨fun hnone => absurd hnone hn, ?_, hself.listed, ?_, ?_⟩
        · intro he
          simp only [update_self] at he
          split at he
          · cases he
          · cases he
        · intro a ha hr hsome p hp
          simp only [update_self] at hp
          refine hself.checked a ha hr hsome p ?_
          rw [hconn]
          exact hs p hp
        · intro a ha hr hsome
          obtain ⟨hu, hsent⟩ := hself.narrowed a ha hr hsome
          refine ⟨hu, ?_⟩
          intro other ho
          rw [List.mem_append, List.mem_singleton] at ho
          cases ho with
          | inl hold => exact hsent other hold
          | inr hnew =>
            injection hnew with _ hpath
            rw [hpath]
            obtain ⟨hplain, p, hp, hunder⟩ := pathAllowed_under hallowed
            have hc := hself.checked a ha hr hsome p
            rw [hconn] at hc
            obtain ⟨rule, hm, heq⟩ := hc hp
            refine ⟨hplain, rule, hm, ?_⟩
            rwa [← heq]
    next => exact guarding_closeConn hall k j
  next => exact hall j

/-- STEP LEMMA: a steady step keeps the invariant of every connection. -/
theorem guarding_step (hsnd : Sound lib s) {input : Input}
    (hs : s.Steady lib input) (j : Nat) : Guarding lib (s.step lib input) j := by
  by_cases hconn : input.ofConn = true
  · cases input with
    | accept k dest => exact guarding_accept hall k dest j
    | loadFlag k => exact guarding_loadFlag hall hsnd k j
    | readMap k => exact guarding_readMap hall hsnd k j
    | dial k ok => exact guarding_dial hall k ok j
    | lookUp k => exact guarding_lookUp hall hs j
    | peek k tls => exact guarding_peek hall k tls j
    | request k path goesOn => exact guarding_request hall k path goesOn j
    | hangUp k =>
      simp only [Process.step]
      split
      · exact hall j
      · exact guarding_closeConn hall k j
    | _ => cases hconn
  · obtain ⟨hp, hdest, hc, ha, hraw, hf⟩ :=
      connections_still lib s (by simpa using hconn)
    refine (hall j).same hp (by rw [hdest]) (by rw [hc]) (by rw [ha]) (by rw [hraw]) ?_
    intro path
    rw [hf]

end

theorem new_guarding (lib : Library) (hosts : List HostPort) (paths : List PathRule)
    (loopback allowAll : Bool) (dns : String → List String) (k : Nat) :
    Guarding lib (new lib hosts paths loopback allowAll dns) k := by
  refine ⟨fun _ => ⟨rfl, fun _ => List.not_mem_nil, rfl⟩, fun _ => rfl, ?_, ?_, ?_⟩
  · intro a ha
    cases ha
  · intro a ha
    cases ha
  · intro a ha
    cases ha

/-- PATH NARROWING: a run whose look-ups are steady bypasses no path rule. -/
theorem narrowed_of_steady (lib : Library) (hosts : List HostPort) (paths : List PathRule)
    (loopback allowAll : Bool) (dns : String → List String) (inputs : List Input)
    (hsteady : Run.Throughout (step lib) (Steady lib)
      (new lib hosts paths loopback allowAll dns) inputs) :
    ∀ v ∈ Run.states (step lib) (new lib hosts paths loopback allowAll dns) inputs,
      ∀ k, v.Narrowed lib k := by
  intro v hv k
  have hinv := Run.throughout_states (P := fun v => Sound lib v ∧ ∀ k, Guarding lib v k)
    (fun _ input hok h => ⟨h.1.step input, guarding_step h.2 h.1 hok⟩) hsteady
    ⟨new_sound lib hosts paths loopback allowAll dns,
      new_guarding lib hosts paths loopback allowAll dns⟩ v hv
  exact (hinv.2 k).narrowed

def backendHosts : List HostPort := [⟨"backend", 8000⟩]

def backendPaths : List PathRule := [⟨"backend", 8000, "/gateway"⟩]

def dnsBefore : String → List String := fun _ => ["10.0.0.5"]

def dnsAfter : String → List String := fun _ => ["10.0.0.6"]

def backendSidecar : Process :=
  new plainLibrary backendHosts backendPaths true false dnsBefore

def gatewayCall : List Input :=
  [.accept 0 ⟨"10.0.0.5", 8000⟩, .loadFlag 0, .readMap 0, .dial 0 true, .lookUp 0, .peek 0 false,
    .request 0 "/gateway/chat" true]

theorem narrowed_gatewayCall :
    (Run.final (step plainLibrary) backendSidecar gatewayCall).Narrowed plainLibrary 0 := by
  refine narrowed_of_steady plainLibrary backendHosts backendPaths true false dnsBefore
    gatewayCall ⟨trivial, trivial, trivial, trivial, ?_, trivial, trivial, trivial⟩ _
    (Run.final_mem_states _ _ _) 0
  intro _ a ha _ _
  injection ha with ha
  refine ⟨["/gateway"], rfl, ?_⟩
  rw [← ha]
  exact fun p hp => hp

def movedWhileDialing : List Input :=
  [.accept 0 ⟨"10.0.0.5", 8000⟩, .loadFlag 0, .readMap 0,
    .lockPass 0, .copyPass 0, .swapPass 0 dnsAfter, .unlockPass 0, .dial 0 true, .lookUp 0]

/-- The connection is relayed raw. -/
theorem raw_to_narrowed_destination :
    ¬ ∀ (lib : Library) (hosts : List HostPort) (paths : List PathRule) (loopback allowAll : Bool)
      (dns : String → List String) (inputs : List Input),
      ∀ v ∈ Run.states (step lib) (new lib hosts paths loopback allowAll dns) inputs,
        ∀ k, v.Narrowed lib k := by
  intro h
  have hnarrowed := h plainLibrary backendHosts backendPaths true false dnsBefore
    movedWhileDialing _
    ((Run.mem_states_iff _ _ _ _).2 ⟨movedWhileDialing, [], (List.append_nil _).symm, rfl⟩) 0
  have hraw := (hnarrowed ⟨false, dnsBefore, some ["/gateway"]⟩ rfl rfl
    ⟨⟨"backend", 8000, "/gateway"⟩, List.mem_singleton_self _, rfl, List.mem_singleton_self _⟩).1
  cases hraw

end Process

end Synthorg.Sidecar
