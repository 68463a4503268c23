import NeuralMesh.Js.StringText
import Mathlib.Data.List.Nodup

/-! The names under which the gateway lists the tools of its peers, and the peer that each name is
routed to. A name that is taken gets the end of the peer id as a suffix, which routing reads back. -/
namespace NeuralMesh.Gateway

open Js

def meshStatus : JsString := js "LiopMeshStatus"

def underscore : CodeUnit := 95

/-- What listing and routing read of a cached manifest. -/
structure CachedManifest where
  peerId : JsString
  toolNames : List JsString

@[ext]
structure RemoteTool where
  peerId : JsString
  name : JsString
  deriving DecidableEq

/-- The local tools and the cached manifests, each kept in a `Map`. -/
structure ToolCatalog where
  localToolNames : List JsString
  manifestCache : List CachedManifest
  locals_distinct : localToolNames.Nodup
  peers_distinct : (manifestCache.map (·.peerId)).Nodup

/-! ### Listing -/

def CachedManifest.remoteTools (provider : CachedManifest) : List RemoteTool :=
  (provider.toolNames.filter (· ≠ meshStatus)).map (⟨provider.peerId, ·⟩)

def remoteTools (cache : List CachedManifest) : List RemoteTool :=
  cache.flatMap CachedManifest.remoteTools

/-- `peerId.slice(-4)` -/
def RemoteTool.suffix (tool : RemoteTool) : JsString := tool.peerId.drop (tool.peerId.length - 4)

def RemoteTool.suffixedName (tool : RemoteTool) : JsString :=
  tool.name ++ underscore :: tool.suffix

section Names

variable (locals : List JsString)

/-- The loop of `getRemoteTools`: each tool with its final name. -/
def finalNames : (seenNames : List JsString) → List RemoteTool → List (RemoteTool × JsString)
  | _, [] => []
  | seenNames, tool :: tools =>
    let finalName :=
      if tool.name ∈ seenNames ∨ tool.name ∈ locals then tool.suffixedName else tool.name
    (tool, finalName) :: finalNames (finalName :: seenNames) tools

/-- Whether the name of each tool is taken by a local tool or by a tool before it. -/
def marked : (names : List JsString) → List RemoteTool → List (RemoteTool × Bool)
  | _, [] => []
  | names, tool :: tools =>
    (tool, decide (tool.name ∈ names ∨ tool.name ∈ locals)) :: marked (tool.name :: names) tools

end Names

def ToolCatalog.listing (catalog : ToolCatalog) : List (RemoteTool × JsString) :=
  finalNames catalog.localToolNames [] (remoteTools catalog.manifestCache)

/-- The names of `tools/list`, before they are sorted. -/
def ToolCatalog.listedNames (catalog : ToolCatalog) : List JsString :=
  meshStatus :: catalog.localToolNames ++ catalog.listing.map (·.2)

/-! ### Routing -/

/-- The name without its last part, and that part: `split("_")`, `pop()` and `join("_")`. -/
def splitSuffix (toolName : JsString) : Option (JsString × JsString) :=
  let parts := toolName.splitOn underscore
  if 1 < parts.length then some ([underscore].intercalate parts.dropLast, parts.getLastD [])
  else none

def resolveManifestTarget (cache : List CachedManifest) (toolName : JsString) : Option RemoteTool :=
  match cache.find? fun provider => toolName ∈ provider.toolNames with
  | some provider => some ⟨provider.peerId, toolName⟩
  | none =>
    (splitSuffix toolName).bind fun (baseName, suffix) =>
      (cache.find? fun provider => suffix <:+ provider.peerId ∧ baseName ∈ provider.toolNames).map
        fun provider => ⟨provider.peerId, baseName⟩

inductive ToolTarget where
  | status
  | localTool
  | remote (tool : RemoteTool)
  | unresolved
  deriving DecidableEq

def ToolCatalog.route (catalog : ToolCatalog) (toolName : JsString) : ToolTarget :=
  if toolName = meshStatus then .status
  else if toolName ∈ catalog.localToolNames then .localTool
  else
    match resolveManifestTarget catalog.manifestCache toolName with
    | some tool => .remote tool
    | none => .unresolved

/-- All listed names differ, and each listed tool is routed to by its name. -/
def ToolCatalog.Agrees (catalog : ToolCatalog) : Prop :=
  catalog.listedNames.Nodup ∧
    ∀ listed ∈ catalog.listing, catalog.route listed.2 = .remote listed.1

/-! ### When they agree -/

/-- No peer before the tool's own has the tool and the same end of its id. -/
def Nearest (cache : List CachedManifest) (tool : RemoteTool) : Prop :=
  ∀ earlier ∈ cache.takeWhile (·.peerId ≠ tool.peerId),
    ¬ (tool.suffix <:+ earlier.peerId ∧ tool.name ∈ earlier.toolNames)

/-- A suffixed name is read back as this tool. -/
structure Recoverable (catalog : ToolCatalog) (tool : RemoteTool) : Prop where
  foreign : tool.suffixedName ∉ catalog.localToolNames
  unused : ∀ provider ∈ catalog.manifestCache, tool.suffixedName ∉ provider.toolNames
  plain : underscore ∉ tool.suffix
  nearest : Nearest catalog.manifestCache tool

/-- The tools whose name is taken. -/
def taken (locals names : List JsString) (tools : List RemoteTool) : List RemoteTool :=
  ((marked locals names tools).filter (·.2)).map (·.1)

def ToolCatalog.takenTools (catalog : ToolCatalog) : List RemoteTool :=
  taken catalog.localToolNames [] (remoteTools catalog.manifestCache)

structure ToolCatalog.Separable (catalog : ToolCatalog) : Prop where
  status : meshStatus ∉ catalog.localToolNames
  once : catalog.takenTools.Nodup
  recoverable : ∀ tool ∈ catalog.takenTools, Recoverable catalog tool

/-! ### Splitting a name -/

theorem splitSuffix_append {base suffix : JsString} (plain : underscore ∉ suffix) :
    splitSuffix (base ++ underscore :: suffix) = some (base, suffix) := by
  have parts : (base ++ underscore :: suffix).splitOn underscore =
      base.splitOn underscore ++ [suffix] := by
    rw [List.splitOn_append_cons_self, List.splitOn_eq_singleton plain]
  have several : 1 < (base.splitOn underscore ++ [suffix]).length := by
    have some_part := List.length_pos_iff.mpr (List.splitOn_ne_nil underscore base)
    rw [List.length_append, List.length_singleton]
    omega
  rw [splitSuffix, parts, if_pos several, List.dropLast_concat, List.intercalate_splitOn, List.getLastD_concat]

theorem splitSuffix_eq_some {toolName base suffix : JsString}
    (split : splitSuffix toolName = some (base, suffix)) :
    toolName = base ++ underscore :: suffix ∧ underscore ∉ suffix := by
  by_cases inside : underscore ∈ toolName
  · obtain ⟨later, before, reversed, plain⟩ :=
      List.eq_append_cons_of_mem (List.mem_reverse.mpr inside)
    have whole : toolName = before.reverse ++ underscore :: later.reverse := by
      rw [← List.reverse_reverse toolName, reversed, List.reverse_append, List.reverse_cons,
        List.append_assoc]
      rfl
    have plain : underscore ∉ later.reverse := fun member => plain (List.mem_reverse.mp member)
    rw [whole, splitSuffix_append plain] at split
    cases split
    exact ⟨whole, plain⟩
  · rw [splitSuffix, List.splitOn_eq_singleton inside] at split
    cases split

/-! ### Finding the peer -/

theorem find?_peer (holds : CachedManifest → Bool) (peerId : JsString)
    {cache : List CachedManifest} (distinct : (cache.map (·.peerId)).Nodup) :
    (cache.find? holds).map (·.peerId) = some peerId ↔
      (∃ provider ∈ cache, provider.peerId = peerId ∧ holds provider) ∧
        ∀ earlier ∈ cache.takeWhile (·.peerId ≠ peerId), ¬ holds earlier := by
  induction cache with
  | nil => simp
  | cons provider cache ih =>
    obtain ⟨fresh, distinct⟩ := List.nodup_cons.mp distinct
    have elsewhere : ∀ other ∈ cache, other.peerId ≠ provider.peerId := fun other member same =>
      fresh (List.mem_map.mpr ⟨other, member, same⟩)
    by_cases own : provider.peerId = peerId
    · subst own
      by_cases found : holds provider
      · simp [found]
      · have later : (cache.find? holds).map (·.peerId) ≠ some provider.peerId := by
          intro same
          obtain ⟨other, found, same⟩ := Option.map_eq_some_iff.mp same
          exact elsewhere other (List.mem_of_find?_eq_some found) same
        simp only [List.find?_cons_of_neg found, later, false_iff]
        rintro ⟨⟨other, member, same, held⟩, -⟩
        obtain rfl | member := List.mem_cons.mp member
        · exact found held
        · exact elsewhere other member same
    · by_cases found : holds provider
      · simp [found, own]
      · simp [found, own, ih distinct]

/-- The exact match finds the first remote tool of that name. -/
theorem exactMatch_eq {toolName : JsString} (remote : toolName ≠ meshStatus)
    (cache : List CachedManifest) :
    ((cache.find? fun provider => toolName ∈ provider.toolNames).map fun provider =>
        (⟨provider.peerId, toolName⟩ : RemoteTool)) =
      (remoteTools cache).find? (·.name = toolName) := by
  have own (provider : CachedManifest) : provider.remoteTools.find? (·.name = toolName) =
      if toolName ∈ provider.toolNames then some ⟨provider.peerId, toolName⟩ else none := by
    rw [CachedManifest.remoteTools]
    induction provider.toolNames with
    | nil => rfl
    | cons name names ih =>
      by_cases same : name = toolName
      · subst same
        simp [remote]
      · by_cases status : name = meshStatus
        · simpa [status, remote] using ih
        · simpa [status, same, Ne.symm same] using ih
  induction cache with
  | nil => rfl
  | cons provider cache ih =>
    rw [remoteTools, List.flatMap_cons, List.find?_append, own, ← remoteTools, ← ih]
    by_cases found : toolName ∈ provider.toolNames <;> simp [found]

theorem mem_remoteTools {cache : List CachedManifest} {tool : RemoteTool} :
    tool ∈ remoteTools cache ↔
      tool.name ≠ meshStatus ∧
        ∃ provider ∈ cache, provider.peerId = tool.peerId ∧ tool.name ∈ provider.toolNames := by
  simp only [remoteTools, List.mem_flatMap, CachedManifest.remoteTools, List.mem_map,
    List.mem_filter, decide_eq_true_eq]
  constructor
  · rintro ⟨provider, member, name, ⟨named, remote⟩, rfl⟩
    exact ⟨remote, provider, member, rfl, named⟩
  · rintro ⟨remote, provider, member, same, named⟩
    exact ⟨provider, member, tool.name, ⟨named, remote⟩, by rw [same]⟩

/-! ### Routing a suffixed name -/

theorem suffix_isSuffix (tool : RemoteTool) : tool.suffix <:+ tool.peerId := List.drop_suffix _ _

theorem suffixedName_ne_name (tool : RemoteTool) : tool.suffixedName ≠ tool.name := by
  intro same
  have lengths := congrArg List.length same
  rw [RemoteTool.suffixedName, List.length_append, List.length_cons] at lengths
  omega

theorem suffixedName_ne_meshStatus (tool : RemoteTool) : tool.suffixedName ≠ meshStatus := by
  intro same
  have inside : underscore ∈ tool.suffixedName :=
    List.mem_append_right _ (List.mem_cons_self ..)
  rw [same] at inside
  exact absurd inside (by decide)

/-- The suffixed match, once its parts are known. -/
theorem suffixedMatch_iff {cache : List CachedManifest} {tool : RemoteTool}
    (distinct : (cache.map (·.peerId)).Nodup) (listed : tool ∈ remoteTools cache) :
    ((cache.find? fun provider =>
        tool.suffix <:+ provider.peerId ∧ tool.name ∈ provider.toolNames).map fun provider =>
          (⟨provider.peerId, tool.name⟩ : RemoteTool)) = some tool ↔ Nearest cache tool := by
  obtain ⟨-, own, member, same, named⟩ := mem_remoteTools.mp listed
  have peer : ∀ found : Option CachedManifest,
      (found.map fun provider => (⟨provider.peerId, tool.name⟩ : RemoteTool)) = some tool ↔
        found.map (·.peerId) = some tool.peerId := by
    intro found
    cases found <;> simp [RemoteTool.ext_iff]
  have matching : ∃ provider ∈ cache, provider.peerId = tool.peerId ∧
      tool.suffix <:+ provider.peerId ∧ tool.name ∈ provider.toolNames :=
    ⟨own, member, same, same ▸ suffix_isSuffix tool, named⟩
  rw [peer, find?_peer _ _ distinct]
  simp only [decide_eq_true_eq, matching, true_and, Nearest]

theorem resolve_suffixed {cache : List CachedManifest} {tool : RemoteTool}
    (distinct : (cache.map (·.peerId)).Nodup) (listed : tool ∈ remoteTools cache) :
    resolveManifestTarget cache tool.suffixedName = some tool ↔
      (∀ provider ∈ cache, tool.suffixedName ∉ provider.toolNames) ∧
        underscore ∉ tool.suffix ∧ Nearest cache tool := by
  rw [resolveManifestTarget]
  split
  next provider exact =>
    have used := List.find?_some exact
    constructor
    · intro same
      exact absurd (congrArg RemoteTool.name (Option.some.inj same)) (suffixedName_ne_name tool)
    · rintro ⟨unused, -⟩
      exact absurd (of_decide_eq_true used) (unused provider (List.mem_of_find?_eq_some exact))
  next unmatched =>
    have unused : ∀ provider ∈ cache, tool.suffixedName ∉ provider.toolNames := by
      intro provider member used
      exact List.find?_eq_none.mp unmatched provider member (decide_eq_true used)
    constructor
    · intro found
      obtain ⟨⟨base, suffix⟩, split, found⟩ := Option.bind_eq_some_iff.mp found
      obtain ⟨joined, plain⟩ := splitSuffix_eq_some split
      obtain ⟨provider, -, rfl⟩ := Option.map_eq_some_iff.mp found
      obtain rfl := (List.cons.inj (List.append_cancel_left joined)).2
      exact ⟨unused, plain, (suffixedMatch_iff distinct listed).mp found⟩
    · rintro ⟨-, plain, nearest⟩
      rw [RemoteTool.suffixedName, splitSuffix_append plain]
      exact (suffixedMatch_iff distinct listed).mpr nearest

theorem route_suffixed {catalog : ToolCatalog} {tool : RemoteTool}
    (listed : tool ∈ remoteTools catalog.manifestCache) :
    catalog.route tool.suffixedName = .remote tool ↔ Recoverable catalog tool := by
  rw [ToolCatalog.route, if_neg (suffixedName_ne_meshStatus tool)]
  have resolved := resolve_suffixed catalog.peers_distinct listed
  by_cases local_name : tool.suffixedName ∈ catalog.localToolNames
  · rw [if_pos local_name]
    exact ⟨(nomatch ·), fun recoverable => absurd local_name recoverable.foreign⟩
  · rw [if_neg local_name]
    constructor
    · intro routed
      split at routed
      next found target =>
        cases routed
        obtain ⟨unused, plain, nearest⟩ := resolved.mp target
        exact ⟨local_name, unused, plain, nearest⟩
      next => cases routed
    · rintro ⟨-, unused, plain, nearest⟩
      rw [resolved.mpr ⟨unused, plain, nearest⟩]

theorem route_exact {catalog : ToolCatalog} {toolName : JsString} {tool : RemoteTool}
    (remote : toolName ≠ meshStatus) (foreign : toolName ∉ catalog.localToolNames)
    (found : ((catalog.manifestCache.find? fun provider => toolName ∈ provider.toolNames).map
      fun provider => (⟨provider.peerId, toolName⟩ : RemoteTool)) = some tool) :
    catalog.route toolName = .remote tool := by
  obtain ⟨provider, first, rfl⟩ := Option.map_eq_some_iff.mp found
  rw [ToolCatalog.route, if_neg remote, if_neg foreign, resolveManifestTarget, first]

/-! ### The listed names -/

section Listing

variable {locals : List JsString}

theorem taken_cons (names : List JsString) (tool : RemoteTool) (tools : List RemoteTool) :
    taken locals names (tool :: tools) =
      if tool.name ∈ names ∨ tool.name ∈ locals then
        tool :: taken locals (tool.name :: names) tools
      else taken locals (tool.name :: names) tools := by
  by_cases occupied : tool.name ∈ names ∨ tool.name ∈ locals <;>
    simp [taken, marked, occupied]

theorem taken_subset (names : List JsString) (tools : List RemoteTool) :
    ∀ tool ∈ taken locals names tools, tool ∈ tools := by
  induction tools generalizing names with
  | nil => exact fun _ member => member
  | cons tool tools ih =>
    intro other member
    rw [taken_cons] at member
    split at member
    · obtain rfl | member := List.mem_cons.mp member
      · exact List.mem_cons_self ..
      · exact List.mem_cons_of_mem _ (ih _ other member)
    · exact List.mem_cons_of_mem _ (ih _ other member)

/-- A name that an earlier tool has is seen, or it is local and the suffixed one is seen. -/
theorem taken_suffixed {seenNames names : List JsString} (tools : List RemoteTool)
    (seen : ∀ name ∈ names, name ∈ seenNames ∨ name ∈ locals) :
    ((taken locals names tools).map fun tool => (tool, tool.suffixedName)).Sublist
      (finalNames locals seenNames tools) := by
  induction tools generalizing seenNames names with
  | nil => exact List.Sublist.refl _
  | cons tool tools ih =>
    have grow : ∀ finalName, (finalName = tool.name ∨ tool.name ∈ seenNames ∨
        tool.name ∈ locals) → ∀ name ∈ tool.name :: names,
          name ∈ finalName :: seenNames ∨ name ∈ locals := by
      intro finalName kept name member
      obtain rfl | member := List.mem_cons.mp member
      · obtain rfl | known | known := kept
        · exact .inl (List.mem_cons_self ..)
        · exact .inl (List.mem_cons_of_mem _ known)
        · exact .inr known
      · exact (seen name member).imp_left (List.mem_cons_of_mem _)
    rw [taken_cons, finalNames]
    by_cases occupied : tool.name ∈ seenNames ∨ tool.name ∈ locals
    · rw [if_pos occupied]
      have rest := ih (grow tool.suffixedName (.inr occupied))
      split
      · exact List.Sublist.cons_cons _ rest
      · exact List.Sublist.cons _ rest
    · rw [if_neg occupied]
      have free : ¬ (tool.name ∈ names ∨ tool.name ∈ locals) := by
        rintro (member | member)
        · exact occupied (seen _ member)
        · exact occupied (.inr member)
      rw [if_neg free]
      exact List.Sublist.cons _ (ih (grow tool.name (.inl rfl)))

def plannedName (listed : RemoteTool × Bool) : JsString :=
  if listed.2 then listed.1.suffixedName else listed.1.name

/-- When no suffixed name is a tool's own, the seen names serve as the earlier tools' names. -/
theorem finalNames_eq {seenNames names : List JsString} {tools : List RemoteTool}
    (seen : ∀ tool ∈ tools,
      (tool.name ∈ seenNames ∨ tool.name ∈ locals) ↔ (tool.name ∈ names ∨ tool.name ∈ locals))
    (unused : ∀ tool ∈ taken locals names tools, ∀ other ∈ tools,
      tool.suffixedName ≠ other.name) :
    finalNames locals seenNames tools =
      (marked locals names tools).map fun listed => (listed.1, plannedName listed) := by
  induction tools generalizing seenNames names with
  | nil => rfl
  | cons tool tools ih =>
    have own := seen tool (List.mem_cons_self ..)
    have rest := fun other member => seen other (List.mem_cons_of_mem tool member)
    rw [taken_cons] at unused
    rw [finalNames, marked, List.map_cons]
    by_cases occupied : tool.name ∈ names ∨ tool.name ∈ locals
    · rw [if_pos occupied] at unused
      have fresh := unused tool (List.mem_cons_self ..)
      have tail : finalNames locals (tool.suffixedName :: seenNames) tools =
          (marked locals (tool.name :: names) tools).map fun listed =>
            (listed.1, plannedName listed) := by
        apply ih
        · intro other member
          have different := (fresh other (List.mem_cons_of_mem _ member)).symm
          by_cases same : other.name = tool.name
          · simp [same, or_assoc, own.mpr occupied]
          · simpa [different, same] using rest other member
        · exact fun taken_tool member other later =>
            unused taken_tool (List.mem_cons_of_mem _ member) other (List.mem_cons_of_mem _ later)
      simp [own.mpr occupied, occupied, tail, plannedName]
    · rw [if_neg occupied] at unused
      have unseen := mt own.mp occupied
      have tail : finalNames locals (tool.name :: seenNames) tools =
          (marked locals (tool.name :: names) tools).map fun listed =>
            (listed.1, plannedName listed) := by
        apply ih
        · intro other member
          by_cases same : other.name = tool.name
          · simp [same]
          · simpa [same] using rest other member
        · exact fun taken_tool member other later =>
            unused taken_tool member other (List.mem_cons_of_mem _ later)
      simp [unseen, occupied, tail, plannedName]

theorem marked_true {names : List JsString} {tools : List RemoteTool} {tool : RemoteTool} :
    (tool, true) ∈ marked locals names tools ↔ tool ∈ taken locals names tools := by
  simp [taken]

/-- A tool whose name is free is the first of that name. -/
theorem marked_false {names : List JsString} {tools : List RemoteTool} {tool : RemoteTool}
    (free : (tool, false) ∈ marked locals names tools) :
    tool.name ∉ names ∧ tool.name ∉ locals ∧ tools.find? (·.name = tool.name) = some tool := by
  induction tools generalizing names with
  | nil => cases free
  | cons first tools ih =>
    obtain same | later := List.mem_cons.mp free
    · cases (Prod.mk.inj same).1
      have unoccupied := of_decide_eq_false (Prod.mk.inj same).2.symm
      obtain ⟨fresh, foreign⟩ := not_or.mp unoccupied
      exact ⟨fresh, foreign, by simp⟩
    · obtain ⟨fresh, foreign, found⟩ := ih later
      have different : first.name ≠ tool.name := fun same => fresh (same ▸ List.mem_cons_self ..)
      refine ⟨fun member => fresh (List.mem_cons_of_mem _ member), foreign, ?_⟩
      rw [List.find?_cons_of_neg (by simpa using different), found]

theorem marked_mem {names : List JsString} {tools : List RemoteTool} :
    ∀ listed ∈ marked locals names tools, listed.1 ∈ tools := by
  induction tools generalizing names with
  | nil => exact fun _ member => (nomatch member)
  | cons tool tools ih =>
    intro listed member
    obtain rfl | member := List.mem_cons.mp member
    · exact List.mem_cons_self ..
    · exact List.mem_cons_of_mem _ (ih listed member)

theorem planned_nodup {names : List JsString} {tools : List RemoteTool}
    (once : (taken locals names tools).Nodup)
    (unused : ∀ tool ∈ taken locals names tools, ∀ other ∈ tools,
      tool.suffixedName ≠ other.name)
    (separate : ∀ tool ∈ taken locals names tools, ∀ other ∈ taken locals names tools,
      tool.suffixedName = other.suffixedName → tool = other) :
    ((marked locals names tools).map plannedName).Nodup := by
  induction tools generalizing names with
  | nil => exact List.nodup_nil
  | cons tool tools ih =>
    rw [taken_cons] at once unused separate
    have later : ∀ other ∈ taken locals (tool.name :: names) tools,
        other ∈ if tool.name ∈ names ∨ tool.name ∈ locals then
          tool :: taken locals (tool.name :: names) tools
        else taken locals (tool.name :: names) tools := by
      intro other member
      split
      · exact List.mem_cons_of_mem _ member
      · exact member
    have tail : ((marked locals (tool.name :: names) tools).map plannedName).Nodup := by
      apply ih
      · split at once
        · exact (List.nodup_cons.mp once).2
        · exact once
      · exact fun other member another inside =>
          unused other (later other member) another (List.mem_cons_of_mem _ inside)
      · exact fun other member another inside =>
          separate other (later other member) another (later another inside)
    rw [marked, List.map_cons, List.nodup_cons]
    refine ⟨?_, tail⟩
    intro repeated
    obtain ⟨⟨other, occupied⟩, member, same⟩ := List.mem_map.mp repeated
    have inside := List.mem_cons_of_mem tool (marked_mem _ member)
    by_cases own : tool.name ∈ names ∨ tool.name ∈ locals
    · rw [if_pos own] at once unused separate
      cases occupied with
      | false =>
        have different := unused tool (List.mem_cons_self ..) other inside
        exact different (by simpa [plannedName, own] using same.symm)
      | true =>
        have second := marked_true.mp member
        have equal := separate tool (List.mem_cons_self ..) other
          (List.mem_cons_of_mem _ second) (by simpa [plannedName, own] using same.symm)
        exact (List.nodup_cons.mp once).1 (equal ▸ second)
    · cases occupied with
      | false =>
        have fresh := (marked_false member).1
        have equal : other.name = tool.name := by simpa [plannedName, own] using same
        exact fresh (equal ▸ List.mem_cons_self ..)
      | true =>
        have second := later other (marked_true.mp member)
        have different := unused other second tool (List.mem_cons_self ..)
        exact different (by simpa [plannedName, own] using same)

end Listing

/-! ### Agreement -/

variable {catalog : ToolCatalog}

theorem ToolCatalog.takenTools_suffixed (catalog : ToolCatalog) :
    (catalog.takenTools.map fun tool => (tool, tool.suffixedName)).Sublist catalog.listing :=
  taken_suffixed _ (List.forall_mem_nil _)

theorem ToolCatalog.separable_of_agrees (agrees : catalog.Agrees) : catalog.Separable := by
  obtain ⟨distinct, routed⟩ := agrees
  obtain ⟨status, distinct⟩ := List.nodup_cons.mp distinct
  constructor
  case status => exact fun member => status (List.mem_append_left _ member)
  case once =>
    have names := catalog.takenTools_suffixed.map Prod.snd
    rw [List.map_map] at names
    exact List.Nodup.of_map _ (names.nodup (List.nodup_append.mp distinct).2.1)
  case recoverable =>
    intro tool member
    have listed : (tool, tool.suffixedName) ∈ catalog.listing :=
      catalog.takenTools_suffixed.subset (List.mem_map.mpr ⟨tool, member, rfl⟩)
    exact (route_suffixed (taken_subset _ _ tool member)).mp (routed _ listed)

theorem Recoverable.injective {tool other : RemoteTool} (first : Recoverable catalog tool)
    (second : Recoverable catalog other) (listed : tool ∈ remoteTools catalog.manifestCache)
    (listed' : other ∈ remoteTools catalog.manifestCache)
    (same : tool.suffixedName = other.suffixedName) : tool = other := by
  have routed := (route_suffixed listed).mpr first
  rw [same, (route_suffixed listed').mpr second] at routed
  exact (ToolTarget.remote.inj routed).symm

theorem ToolCatalog.agrees_of_separable (separable : catalog.Separable) : catalog.Agrees := by
  obtain ⟨status, once, recoverable⟩ := separable
  have remote : ∀ tool ∈ remoteTools catalog.manifestCache, tool.name ≠ meshStatus :=
    fun tool member => (mem_remoteTools.mp member).1
  have unused : ∀ tool ∈ catalog.takenTools, ∀ other ∈ remoteTools catalog.manifestCache,
      tool.suffixedName ≠ other.name := by
    intro tool member other listed same
    obtain ⟨-, provider, cached, -, named⟩ := mem_remoteTools.mp listed
    exact (recoverable tool member).unused provider cached (same ▸ named)
  have separate : ∀ tool ∈ catalog.takenTools, ∀ other ∈ catalog.takenTools,
      tool.suffixedName = other.suffixedName → tool = other := by
    intro tool member other member'
    exact (recoverable tool member).injective (recoverable other member')
      (taken_subset _ _ tool member) (taken_subset _ _ other member')
  have listing : catalog.listing = (marked catalog.localToolNames []
      (remoteTools catalog.manifestCache)).map fun listed => (listed.1, plannedName listed) :=
    finalNames_eq (fun _ _ => Iff.rfl) unused
  have names : catalog.listing.map (·.2) = (marked catalog.localToolNames []
      (remoteTools catalog.manifestCache)).map plannedName := by
    rw [listing, List.map_map]
    rfl
  have outside : ∀ listed ∈ marked catalog.localToolNames [] (remoteTools catalog.manifestCache),
      plannedName listed ≠ meshStatus ∧ plannedName listed ∉ catalog.localToolNames := by
    rintro ⟨tool, occupied⟩ member
    cases occupied with
    | false => exact ⟨remote tool (marked_mem _ member), (marked_false member).2.1⟩
    | true =>
      exact ⟨suffixedName_ne_meshStatus tool, (recoverable tool (marked_true.mp member)).foreign⟩
  constructor
  · rw [ToolCatalog.listedNames, names]
    apply List.nodup_cons.mpr
    constructor
    · intro member
      obtain member | member := List.mem_append.mp member
      · exact status member
      · obtain ⟨listed, member, same⟩ := List.mem_map.mp member
        exact (outside listed member).1 same
    · apply List.nodup_append.mpr
      refine ⟨catalog.locals_distinct, planned_nodup once unused separate, ?_⟩
      rintro name local_name _ member rfl
      obtain ⟨listed, member, same⟩ := List.mem_map.mp member
      exact (outside listed member).2 (same ▸ local_name)
  · intro listed listed_member
    rw [listing] at listed_member
    obtain ⟨⟨tool, occupied⟩, member, rfl⟩ := List.mem_map.mp listed_member
    obtain ⟨known, foreign⟩ := outside _ member
    cases occupied with
    | false =>
      have found := (exactMatch_eq known catalog.manifestCache).trans (marked_false member).2.2
      exact route_exact known foreign found
    | true =>
      exact (route_suffixed (marked_mem _ member)).mpr (recoverable tool (marked_true.mp member))

/-- Each tool that shares its name with a local tool or an earlier one must be told apart by the
last four characters of its peer. -/
theorem ToolCatalog.agrees_iff (catalog : ToolCatalog) : catalog.Agrees ↔ catalog.Separable :=
  ⟨separable_of_agrees, agrees_of_separable⟩

/-- Two peers whose ids end alike give one tool: the name of the second tool leads to the first. -/
def alikeCatalog : ToolCatalog where
  localToolNames := []
  manifestCache := [⟨js "aWXYZ", [js "t"]⟩, ⟨js "bWXYZ", [js "t"]⟩]
  locals_distinct := List.nodup_nil
  peers_distinct := by decide

theorem alikeCatalog_misroutes : ¬ ∀ catalog : ToolCatalog, catalog.Agrees := by
  intro agrees
  have routed := (agrees alikeCatalog).2 (⟨js "bWXYZ", js "t"⟩, js "t_WXYZ") (by decide)
  exact absurd routed (by decide)

end NeuralMesh.Gateway
