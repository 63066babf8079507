/-
The key a sandbox container is reused under, written and read back
(tools/sandbox/_owner_key.py, reclaim.py `parse_owner_key`).

An owner carries no colon, so it is the last segment of its key once the mode
and the image are off. These two are recognised by their shape, and an owner of
the image's shape is taken for one behind a project.
-/
import Synthorg.Core.Validation
import Synthorg.Lib.Segments
import Mathlib.Data.List.TakeWhile

namespace Synthorg.Sandbox

open Synthorg.Core Lib
open List

inductive MountMode
  | readWrite
  | readOnly
  deriving DecidableEq

def MountMode.value : MountMode → Text
  | .readWrite => "rw".toList
  | .readOnly => "ro".toList

def mountModes : List MountMode := [.readWrite, .readOnly]

/-- `hashlib.sha256(image).hexdigest()`. -/
structure Digest where
  hexdigest : Text → Text
  isHex : ∀ image, (hexdigest image).all isHexDigit = true
  length : ∀ image, (hexdigest image).length = 64

-- ==== the key

/-- `\A[A-Za-z0-9._-]{1,128}\Z`. -/
def validRawOwner (key : Text) : Bool :=
  0 < key.length && key.length ≤ 128 && key.all fun c => c.isAlphanum || "._-".toList.contains c

/-- `\A[A-Za-z0-9._:-]{1,128}\Z`. -/
def validOwner (key : Text) : Bool :=
  0 < key.length && key.length ≤ 128 && key.all fun c => c.isAlphanum || "._:-".toList.contains c

def given (value : Option Text) : Option Text := value.filter (· ≠ [])

def Digest.imageSegment (digest : Digest) (image : Text) : Text :=
  "img-".toList ++ (digest.hexdigest image).take 12

def projectPrefixed (digest : Digest) (key : Text) (projectId imageOverride : Option Text)
    (mountMode : MountMode) : Text :=
  let prefixed :=
    match given projectId with
    | some project => project ++ ':' :: key
    | none => key
  let prefixed :=
    match given imageOverride with
    | some image => prefixed ++ ':' :: digest.imageSegment image
    | none => prefixed
  prefixed ++ ':' :: mountMode.value

/-- A call of `resolve_lifecycle`, with the answer of `context_owner`. -/
structure Request where
  ownerId : Option Text
  contextOwner : Option Text
  reusesContainer : Bool
  projectId : Option Text
  imageOverride : Option Text
  mountMode : MountMode

def strip (text : Text) : Text :=
  ((text.dropWhile isSpace).reverse.dropWhile isSpace).reverse

def qualify (digest : Digest) (ephemeral : Text) (r : Request) (key : Text) (owns : Bool) :
    Text × Bool :=
  let prefixed := projectPrefixed digest key r.projectId r.imageOverride r.mountMode
  if validOwner prefixed then (prefixed, owns) else (ephemeral, false)

/-- The key, and whether the strategy owns the teardown; `ephemeral` is the
`ephemeral_key` of the call. -/
def resolveLifecycle (digest : Digest) (ephemeral : Text) (r : Request) : Text × Bool :=
  match given (r.ownerId.map strip) with
  | some key =>
    if validRawOwner key then qualify digest ephemeral r key r.reusesContainer
    else (ephemeral, false)
  | none =>
    if r.reusesContainer then
      match r.contextOwner.filter validRawOwner with
      | some key => qualify digest ephemeral r key true
      | none => (ephemeral, false)
    else (ephemeral, false)

-- ==== the way back

structure OwnerKey where
  key : Text
  projectId : Option Text
  owner : Text
  imageSegment : Option Text
  mountMode : Option MountMode
  deriving DecidableEq

/-- `rest[: -len(suffix)]`, where `rest.endswith(suffix)`. -/
def cutSuffix (suffix rest : Text) : Option Text :=
  if suffix <:+ rest then some (rest.take (rest.length - suffix.length)) else none

/-- `img-[0-9a-f]{12}`. -/
def imageShaped (owner : Text) : Bool :=
  owner.length = 16 && owner.take 4 = "img-".toList && (owner.drop 4).all isHexDigit

/-- `_IMAGE_SEGMENT.search(rest)`, as what stands before the match and the segment
without its colon. A `$` also matches before a newline at the end. -/
def searchImage (rest : Text) : Option (Text × Text) :=
  let body := if rest.getLast? = some '\n' then rest.dropLast else rest
  let start := body.length - 17
  let found := body.drop start
  if found.head? = some ':' ∧ imageShaped found.tail then some (body.take start, found.tail)
  else none

/-- `rest.rpartition(":")`, without its middle. -/
def rpartition (rest : Text) : Text × Text :=
  let owner := (rest.reverse.takeWhile (· ≠ ':')).reverse
  (rest.take (rest.length - owner.length - 1), owner)

def parseOwnerKey (key : Text) : Option OwnerKey :=
  let found := mountModes.findSome? fun mode =>
    (cutSuffix (':' :: mode.value) key).map fun rest => (rest, mode)
  let rest := (found.map Prod.fst).getD key
  let image := searchImage rest
  let (project, owner) := rpartition ((image.map Prod.fst).getD rest)
  if owner = [] then none
  else
    some
      { key, owner
        projectId := given (some project)
        imageSegment := image.map Prod.snd
        mountMode := found.map Prod.snd }

-- ==== what the way back finds

variable {digest : Digest} {rest owner image : Text} {mode : MountMode}

theorem not_mem_of_valid (h : validRawOwner owner = true) {c : Char}
    (hc : (c.isAlphanum || "._-".toList.contains c) = false) : c ∉ owner := by
  intro hin
  simp only [validRawOwner, Bool.and_eq_true, all_eq_true] at h
  rw [h.2 c hin] at hc
  cases hc

theorem not_mem_of_shaped (h : imageShaped owner = true) {c : Char} (hi : c ∉ "img-".toList)
    (hhex : isHexDigit c = false) : c ∉ owner := by
  simp only [imageShaped, Bool.and_eq_true, decide_eq_true_eq, all_eq_true] at h
  rw [← take_append_drop 4 owner, mem_append, h.1.2]
  rintro (hin | hin)
  · exact hi hin
  · rw [h.2 c hin] at hhex
    cases hhex

theorem findMode_append (rest : Text) (mode : MountMode) :
    (mountModes.findSome? fun mode' =>
      (cutSuffix (':' :: mode'.value) (rest ++ ':' :: mode.value)).map fun rest => (rest, mode')) =
      some (rest, mode) := by
  cases mode <;> simp [mountModes, cutSuffix, MountMode.value, ← reverse_prefix]

theorem rpartition_append (project : Text) (hown : ':' ∉ owner) :
    rpartition (project ++ ':' :: owner) = (project, owner) := by
  have hrev : (project ++ ':' :: owner).reverse = owner.reverse ++ ':' :: project.reverse := by simp
  have hlen : project.length + (owner.length + 1) - owner.length - 1 = project.length := by omega
  simp only [rpartition, hrev, Segments.takeWhile_segment (mem_reverse.not.2 hown)]
  simp [hlen]

theorem rpartition_self (hown : ':' ∉ owner) : rpartition owner = ([], owner) := by
  have htake : owner.reverse.takeWhile (· ≠ ':') = owner.reverse :=
    takeWhile_eq_self_iff.2 fun c hc => by
      rw [decide_eq_true_eq]
      rintro rfl
      exact hown (mem_reverse.1 hc)
  simp only [rpartition, htake]
  simp

theorem getLast?_ne (before : Text) (hne : owner ≠ []) (hline : '\n' ∉ owner) :
    (before ++ owner).getLast? ≠ some '\n' := by
  intro hlast
  rw [getLast?_append_of_ne_nil _ hne] at hlast
  exact hline (mem_of_getLast? hlast)

theorem searchImage_append (rest : Text) (hs : imageShaped owner = true) :
    searchImage (rest ++ ':' :: owner) = some (rest, owner) := by
  have hline : '\n' ∉ ':' :: owner := by
    simpa using not_mem_of_shaped hs (c := '\n') (by decide) (by decide)
  have hlen : owner.length = 16 := by
    simp only [imageShaped, Bool.and_eq_true, decide_eq_true_eq] at hs
    exact hs.1.1
  rw [searchImage, if_neg (getLast?_ne rest (cons_ne_nil _ _) hline)]
  simp [hlen, hs]

theorem of_searchImage {before segment : Text} (hlast : rest.getLast? ≠ some '\n')
    (h : searchImage rest = some (before, segment)) :
    rest = before ++ ':' :: segment ∧ imageShaped segment = true := by
  simp only [searchImage, if_neg hlast] at h
  split at h
  next heq =>
    obtain ⟨rfl, rfl⟩ := Prod.mk.inj (Option.some.inj h)
    refine ⟨?_, heq.2⟩
    rw [cons_head?_tail heq.1, take_append_drop]
  next => cases h

-- ==== the round trip

def Request.owner? (r : Request) : Option Text :=
  (given (r.ownerId.map strip)).or r.contextOwner

def Request.parts (digest : Digest) (r : Request) (owner key : Text) : OwnerKey where
  key := key
  projectId := given r.projectId
  owner := owner
  imageSegment := (given r.imageOverride).map digest.imageSegment
  mountMode := some r.mountMode

/-- The key reads back as what it encodes. -/
def Request.Decodes (digest : Digest) (r : Request) (key : Text) : Prop :=
  ∃ owner ∈ r.owner?, parseOwnerKey key = some (r.parts digest owner key)

abbrev Request.Misread (r : Request) : Prop :=
  (given r.projectId).isSome = true ∧ given r.imageOverride = none ∧
    r.owner?.any imageShaped = true

variable {r : Request} {ephemeral : Text}

theorem qualify_owned {owns : Bool} (howns : (qualify digest ephemeral r owner owns).2 = true) :
    (qualify digest ephemeral r owner owns).1 =
      projectPrefixed digest owner r.projectId r.imageOverride r.mountMode := by
  rw [qualify] at howns ⊢
  split
  next => rfl
  next hinv =>
    rw [if_neg hinv] at howns
    cases howns

theorem resolveLifecycle_owned (howns : (resolveLifecycle digest ephemeral r).2 = true) :
    ∃ owner, r.owner? = some owner ∧ validRawOwner owner = true ∧
      (resolveLifecycle digest ephemeral r).1 =
        projectPrefixed digest owner r.projectId r.imageOverride r.mountMode := by
  rw [Request.owner?]
  rw [resolveLifecycle] at howns ⊢
  cases he : given (r.ownerId.map strip) with
  | some key =>
    rw [he] at howns
    dsimp only at howns ⊢
    split at howns
    next hval => exact ⟨key, rfl, hval, by rw [if_pos hval, qualify_owned howns]⟩
    next => cases howns
  | none =>
    rw [he] at howns
    dsimp only at howns ⊢
    split at howns
    next hr =>
      rw [if_pos hr]
      cases hctx : r.contextOwner.filter validRawOwner with
      | some key =>
        rw [hctx] at howns
        obtain ⟨hown, hval⟩ := Option.filter_eq_some_iff.1 hctx
        exact ⟨key, hown, hval, qualify_owned howns⟩
      | none =>
        rw [hctx] at howns
        cases howns
    next => cases howns

theorem imageShaped_segment (digest : Digest) (image : Text) :
    imageShaped (digest.imageSegment image) = true := by
  have hhex : ((digest.hexdigest image).take 12).all isHexDigit = true :=
    all_eq_true.2 fun c hc => all_eq_true.1 (digest.isHex image) c (mem_of_mem_take hc)
  simpa [imageShaped, Digest.imageSegment, digest.length] using hhex

theorem parse_append (hown : ':' ∉ owner) (hne : owner ≠ []) {found : Option (Text × Text)}
    (hi : searchImage rest = found) (project : Option Text)
    (hrest : (found.map Prod.fst).getD rest =
      match given project with
      | some project => project ++ ':' :: owner
      | none => owner) (mode : MountMode) :
    parseOwnerKey (rest ++ ':' :: mode.value) = some
      { key := rest ++ ':' :: mode.value
        projectId := given project
        owner := owner
        imageSegment := found.map Prod.snd
        mountMode := some mode } := by
  simp only [parseOwnerKey, findMode_append, Option.map_some, Option.getD_some, hi, hrest]
  cases hproj : given project with
  | none => simp [rpartition_self hown, hne, given, Option.filter]
  | some project =>
    have hgiven := (Option.filter_eq_some_iff.1 hproj).2
    simp_all [rpartition_append project hown, given, Option.filter]

theorem imageSegment_parse {k : OwnerKey} (h : parseOwnerKey (rest ++ ':' :: mode.value) = some k) :
    k.imageSegment = (searchImage rest).map Prod.snd := by
  simp only [parseOwnerKey, findMode_append, Option.map_some, Option.getD_some] at h
  split at h
  next => cases h
  next =>
    cases h
    rfl

/-- DECODING: the key says what it encodes, but for one shape of owner. -/
theorem parse_projectPrefixed (hown : validRawOwner owner = true) (r : Request) :
    let key := projectPrefixed digest owner r.projectId r.imageOverride r.mountMode
    parseOwnerKey key = some (r.parts digest owner key) ↔
      ¬ ((given r.projectId).isSome = true ∧ given r.imageOverride = none ∧
        imageShaped owner = true) := by
  have hc : ':' ∉ owner := not_mem_of_valid hown (by decide)
  have hne : owner ≠ [] := by
    rintro rfl
    cases hown
  cases hi : given r.imageOverride with
  | some image =>
    refine iff_of_true ?_ fun h => by simp at h
    have hsearch := searchImage_append (match given r.projectId with
      | some project => project ++ ':' :: owner
      | none => owner) (imageShaped_segment digest image)
    rw [projectPrefixed, hi]
    exact (parse_append hc hne hsearch r.projectId rfl r.mountMode).trans
      (by rw [Request.parts, hi]; rfl)
  | none =>
    rw [projectPrefixed, hi]
    dsimp only
    generalize hrest : (match given r.projectId with
      | some project => project ++ ':' :: owner
      | none => owner) = rest
    have hlast : rest.getLast? ≠ some '\n' := by
      have hline : '\n' ∉ owner := not_mem_of_valid hown (by decide)
      subst hrest
      split
      next project _ =>
        rw [append_cons]
        exact getLast?_ne _ hne hline
      next => exact getLast?_ne [] hne hline
    cases hsearch : searchImage rest with
    | none =>
      refine iff_of_true ?_ ?_
      · exact (parse_append hc hne hsearch r.projectId hrest.symm r.mountMode).trans
          (by rw [Request.parts, hi]; rfl)
      · rintro ⟨hsome, -, hs⟩
        obtain ⟨project, hproj⟩ := Option.isSome_iff_exists.1 hsome
        rw [hproj] at hrest
        rw [← hrest, searchImage_append project hs] at hsearch
        cases hsearch
    | some found =>
      obtain ⟨hcut, hs⟩ := of_searchImage hlast hsearch
      refine iff_of_false (fun hparse => ?_) (not_not.2 ?_)
      · have himage := imageSegment_parse hparse
        rw [hsearch, Request.parts, hi] at himage
        cases himage
      · cases hproj : given r.projectId with
        | none =>
          rw [hproj] at hrest
          have heq : owner = found.1 ++ ':' :: found.2 := hrest.trans hcut
          exact absurd (by simp [heq]) hc
        | some project =>
          rw [hproj] at hrest
          have heq := (Segments.cut_unique_last hc
            (not_mem_of_shaped hs (by decide) (by decide)) (hrest.trans hcut)).2
          exact ⟨rfl, rfl, heq ▸ hs⟩

theorem ownerKey_decodes_iff (digest : Digest) (ephemeral : Text)
    (howns : (resolveLifecycle digest ephemeral r).2 = true) :
    (r.Decodes digest (resolveLifecycle digest ephemeral r).1 ↔ ¬ r.Misread) ∧
      ∀ r' ephemeral', (resolveLifecycle digest ephemeral' r').2 = true →
        ¬ r.Misread → ¬ r'.Misread →
        (∀ image ∈ given r.imageOverride, ∀ image' ∈ given r'.imageOverride,
          digest.imageSegment image = digest.imageSegment image' → image = image') →
        (resolveLifecycle digest ephemeral r).1 = (resolveLifecycle digest ephemeral' r').1 →
        r.owner? = r'.owner? ∧ given r.projectId = given r'.projectId ∧
          given r.imageOverride = given r'.imageOverride ∧ r.mountMode = r'.mountMode := by
  have hdec : ∀ {r ephemeral}, (resolveLifecycle digest ephemeral r).2 = true →
      (r.Decodes digest (resolveLifecycle digest ephemeral r).1 ↔ ¬ r.Misread) := by
    intro r ephemeral howns
    obtain ⟨owner, hown, hval, hkey⟩ := resolveLifecycle_owned howns
    simpa [Request.Decodes, Request.Misread, hown, hkey] using parse_projectPrefixed hval r
  refine ⟨hdec howns, fun r' ephemeral' howns' hread hread' hinj hsame => ?_⟩
  obtain ⟨owner, hown, hparse⟩ := (hdec howns).2 hread
  obtain ⟨owner', hown', hparse'⟩ := (hdec howns').2 hread'
  rw [hsame, hparse', Option.some.injEq, Request.parts, Request.parts, OwnerKey.mk.injEq] at hparse
  obtain ⟨-, hproj, rfl, hi, hmode⟩ := hparse
  refine ⟨hown.trans hown'.symm, hproj.symm, ?_, (Option.some.inj hmode).symm⟩
  cases hleft : given r.imageOverride with
  | none =>
    rw [hleft, Option.map_none, Option.map_eq_none_iff] at hi
    exact hi.symm
  | some image =>
    rw [hleft, Option.map_some, Option.map_eq_some_iff] at hi
    obtain ⟨image', hright, hs⟩ := hi
    rw [hright, hinj image hleft image' hright hs.symm]

def digestOfX : Digest where
  hexdigest := fun _ => "2d711642b726b04401627ca9fbac32f5c8530fb1903cc4db02258717921a4881".toList
  isHex := fun _ => by decide
  length := fun _ => by decide

def agentIn (project : Option Text) (image : Option Text) (owner : String) : Request :=
  { ownerId := some owner.toList, contextOwner := none, reusesContainer := true
    projectId := project, imageOverride := image, mountMode := .readWrite }

/-- An agent in an image, named by the call or by its context: the key reads back, and tells no
more. -/
theorem ownerKey_decodes_iff_agent :
    let r := agentIn (some "a:b".toList) (some "x".toList) "agent-7"
    let r' := { r with ownerId := none, contextOwner := some "agent-7".toList }
    r.Decodes digestOfX (resolveLifecycle digestOfX [] r).1 ∧
      r.owner? = r'.owner? ∧ given r.imageOverride = given r'.imageOverride := by
  have h := ownerKey_decodes_iff (r := agentIn (some "a:b".toList) (some "x".toList) "agent-7")
    digestOfX [] (by decide)
  obtain ⟨howner, -, himage, -⟩ := h.2
    { agentIn (some "a:b".toList) (some "x".toList) "agent-7" with
      ownerId := none, contextOwner := some "agent-7".toList }
    [] (by decide) (by decide) (by decide)
    (fun image hleft image' hright _ => Option.some.inj (hleft.symm.trans hright)) (by decide)
  exact ⟨h.1.2 (by decide), howner, himage⟩

theorem namedLikeAnImage :
    ¬ (agentIn (some "x-team".toList) none "img-2d711642b726").Decodes digestOfX
      (resolveLifecycle digestOfX [] (agentIn (some "x-team".toList) none "img-2d711642b726")).1 ∧
    resolveLifecycle digestOfX [] (agentIn (some "x-team".toList) none "img-2d711642b726") =
      resolveLifecycle digestOfX [] (agentIn none (some "x".toList) "x-team") ∧
    (resolveLifecycle digestOfX [] (agentIn none (some "x".toList) "x-team")).2 = true := by
  refine ⟨?_, by decide, by decide⟩
  rintro ⟨owner, hown, hparse⟩
  cases hown
  exact absurd hparse (by decide)

end Synthorg.Sandbox
