import Mathlib.Data.List.Basic
import NeuralMesh.Js.StringText

/-! The issuers that a JWT validator accepts for the issuer it is configured with. The aliases
carry the scheme `http`, a listed authority and no slash at the end, and a path is dropped but
never found again: from an issuer outside these forms a way leads to its aliases and none back. -/
namespace NeuralMesh.Security

open Js

/-- What the constructor `URL` reads. -/
structure Location where
  hostname : JsString
  port : JsString

def NEXUS_AUTHORITIES : List JsString :=
  ["nexus:3000", "liop-nexus:3000", "127.0.0.1:3000", "localhost:3000", "127.0.0.1:13000",
    "localhost:13000", "127.0.0.1:13001", "localhost:13001"].map js

def slash : CodeUnit := 47

def cleanIssuer (issuer : JsString) : JsString :=
  if issuer.getLast? = some slash then issuer.dropLast else issuer

def issuerAuthority (url : Location) : JsString :=
  url.hostname ++ js ":" ++ if url.port = [] then js "3000" else url.port

/-- `issuer.replace(/^https?:\/\/[^/]+/, "")` -/
def pathSuffix (issuer : JsString) : JsString :=
  match (issuer.dropPrefix? (js "http://")).or (issuer.dropPrefix? (js "https://")) with
  | some rest =>
    if rest.takeWhile (· ≠ slash) = [] then issuer else rest.dropWhile (· ≠ slash)
  | none => issuer

/-- Each alias in turn, unless it is there already. -/
def pushNew (issuers aliases : List JsString) : List JsString :=
  aliases.foldl (fun issuers added => if added ∈ issuers then issuers else issuers ++ [added])
    issuers

section Aliases

/-! The URL parser is not part of the repository; `none` is its exception. -/

variable (URL : JsString → Option Location)

def buildIssuerAliases (issuer : JsString) : List JsString :=
  match URL (cleanIssuer issuer) with
  | none => [issuer]
  | some url =>
    if issuerAuthority url ∉ NEXUS_AUTHORITIES then [issuer]
    else
      let suffix := pathSuffix (cleanIssuer issuer)
      let issuers := pushNew [issuer]
        (NEXUS_AUTHORITIES.map fun authority => js "http://" ++ authority ++ suffix)
      if suffix ≠ [] then
        pushNew issuers (NEXUS_AUTHORITIES.map fun authority => js "http://" ++ authority)
      else
        pushNew issuers
          (NEXUS_AUTHORITIES.map fun authority => js "http://" ++ authority ++ js "/oidc")

/-- The issuers that `validate` hands to the check of the token. -/
def acceptedIssuers (issuer : JsString) : List JsString :=
  let issuers := buildIssuerAliases URL issuer
  if issuers.length > 1 then issuers else [issuer]

end Aliases

/-! ### The lists -/

theorem mem_pushNew {aliases : List JsString} (issuers : List JsString) (issuer : JsString) :
    issuer ∈ pushNew issuers aliases ↔ issuer ∈ issuers ∨ issuer ∈ aliases := by
  unfold pushNew
  induction aliases generalizing issuers with
  | nil => simp
  | cons added aliases ih =>
    rw [List.foldl_cons, ih]
    split_ifs with present
    · constructor
      · exact Or.imp_right (List.mem_cons_of_mem added)
      · rintro (old | new)
        · exact .inl old
        · obtain rfl | new := List.mem_cons.mp new
          · exact .inl present
          · exact .inr new
    · rw [List.mem_append, List.mem_singleton, List.mem_cons, or_assoc]

variable {URL : JsString → Option Location}

theorem self_mem (issuer : JsString) : issuer ∈ buildIssuerAliases URL issuer := by
  unfold buildIssuerAliases
  split
  · exact List.mem_singleton_self issuer
  · dsimp only
    split_ifs
    · rw [mem_pushNew, mem_pushNew]
      exact .inl (.inl (List.mem_singleton_self issuer))
    · rw [mem_pushNew, mem_pushNew]
      exact .inl (.inl (List.mem_singleton_self issuer))
    · exact List.mem_singleton_self issuer

/-- The list and the single issuer accept the same. -/
theorem mem_acceptedIssuers (issuer token : JsString) :
    token ∈ acceptedIssuers URL issuer ↔ token ∈ buildIssuerAliases URL issuer := by
  unfold acceptedIssuers
  dsimp only
  split_ifs with many
  · exact Iff.rfl
  · have self := @self_mem URL issuer
    have single : (buildIssuerAliases URL issuer).length = 1 := by
      have := List.length_pos_of_mem self
      omega
    obtain ⟨only, same⟩ := List.length_eq_one_iff.mp single
    rw [same, List.mem_singleton] at self
    rw [same, self]

/-! ### Issuers with a scheme, an authority and a path -/

inductive Scheme where
  | http
  | https
deriving DecidableEq

def Scheme.spelling : Scheme → JsString
  | .http => js "http://"
  | .https => js "https://"

/-- A path is empty or begins with a slash. -/
def Rooted (path : JsString) : Prop := path = [] ∨ ∃ rest, path = slash :: rest

structure Issuer where
  scheme : Scheme
  authority : JsString
  path : JsString
  named : authority ≠ []
  closed : slash ∉ authority
  rooted : Rooted path

namespace Issuer

def url (issuer : Issuer) : JsString := issuer.scheme.spelling ++ (issuer.authority ++ issuer.path)

/-- The path without its trailing slash. -/
def suffix (issuer : Issuer) : JsString := cleanIssuer issuer.path

/-- The URL parser finds a Nexus authority. -/
def Nexus (URL : JsString → Option Location) (issuer : Issuer) : Prop :=
  ∃ url, URL (cleanIssuer issuer.url) = some url ∧ issuerAuthority url ∈ NEXUS_AUTHORITIES

/-- Spelled with `http` and an authority of the list. -/
def Listed (issuer : Issuer) : Prop := issuer.scheme = .http ∧ issuer.authority ∈ NEXUS_AUTHORITIES

end Issuer

theorem cleanIssuer_append {origin path : JsString} (open' : origin.getLast? ≠ some slash) :
    cleanIssuer (origin ++ path) = origin ++ cleanIssuer path := by
  unfold cleanIssuer
  cases path with
  | nil =>
    rw [List.append_nil, if_neg open']
    exact (List.append_nil origin).symm
  | cons c path =>
    have full : c :: path ≠ [] := List.cons_ne_nil c path
    rw [List.getLast?_append_of_ne_nil _ full, List.dropLast_append_of_ne_nil full]
    exact (apply_ite (origin ++ ·) _ _ _).symm

theorem cleanIssuer_rooted {path : JsString} (rooted : Rooted path) :
    Rooted (cleanIssuer path) := by
  unfold cleanIssuer
  split_ifs
  · obtain rfl | ⟨rest, rfl⟩ := rooted
    · exact .inl rfl
    · cases rest with
      | nil => exact .inl rfl
      | cons c rest => exact .inr ⟨_, rfl⟩
  · exact rooted

theorem getLast_authority (issuer : Issuer) :
    (issuer.scheme.spelling ++ issuer.authority).getLast? ≠ some slash := by
  rw [List.getLast?_append_of_ne_nil _ issuer.named]
  intro last
  exact issuer.closed (List.mem_of_getLast? last)

theorem cleanIssuer_url (issuer : Issuer) :
    cleanIssuer issuer.url = issuer.scheme.spelling ++ (issuer.authority ++ issuer.suffix) := by
  rw [Issuer.url, ← List.append_assoc, cleanIssuer_append (getLast_authority issuer),
    List.append_assoc, Issuer.suffix]

theorem dropPrefix_spelling (scheme : Scheme) (rest : JsString) :
    ((scheme.spelling ++ rest).dropPrefix? (js "http://")).or
      ((scheme.spelling ++ rest).dropPrefix? (js "https://")) = some rest := by
  cases scheme with
  | http =>
    rw [Scheme.spelling, List.dropPrefix?_append_of_beq rest (BEq.refl _)]
    rfl
  | https =>
    have other : (js "https://" ++ rest).dropPrefix? (js "http://") = none := rfl
    rw [Scheme.spelling, other, List.dropPrefix?_append_of_beq rest (BEq.refl _)]
    rfl

theorem span_authority {authority path : JsString} (closed : slash ∉ authority)
    (rooted : Rooted path) :
    (authority ++ path).takeWhile (· ≠ slash) = authority ∧
      (authority ++ path).dropWhile (· ≠ slash) = path := by
  have inside : ∀ c ∈ authority, decide (c ≠ slash) = true := by
    intro c member
    exact decide_eq_true fun same => closed (same ▸ member)
  rw [List.takeWhile_append_of_pos inside, List.dropWhile_append_of_pos inside]
  obtain rfl | ⟨rest, rfl⟩ := rooted
  · exact ⟨List.append_nil authority, rfl⟩
  · rw [List.takeWhile_cons_of_neg (by simp), List.dropWhile_cons_of_neg (by simp)]
    exact ⟨List.append_nil authority, rfl⟩

theorem pathSuffix_url (issuer : Issuer) : pathSuffix (cleanIssuer issuer.url) = issuer.suffix := by
  obtain ⟨taken, dropped⟩ :=
    span_authority issuer.closed (cleanIssuer_rooted issuer.rooted)
  rw [cleanIssuer_url, pathSuffix, dropPrefix_spelling]
  dsimp only [Issuer.suffix]
  rw [taken, dropped, if_neg issuer.named]

/-- The parts of an issuer are read off its text. -/
theorem url_eq_iff (issuer : Issuer) {scheme : Scheme} {authority path : JsString}
    (closed : slash ∉ authority) (rooted : Rooted path) :
    issuer.url = scheme.spelling ++ (authority ++ path) ↔
      issuer.scheme = scheme ∧ issuer.authority = authority ∧ issuer.path = path := by
  constructor
  · intro same
    have schemes : issuer.scheme = scheme := by
      rw [Issuer.url] at same
      revert same
      cases issuer.scheme <;> cases scheme <;>
        first | exact fun _ => rfl | exact fun same => nomatch same
    rw [Issuer.url, schemes, List.append_cancel_left_eq] at same
    obtain ⟨taken, dropped⟩ := span_authority issuer.closed issuer.rooted
    rw [same] at taken dropped
    obtain ⟨taken', dropped'⟩ := span_authority closed rooted
    exact ⟨schemes, taken.symm.trans taken', dropped.symm.trans dropped'⟩
  · rintro ⟨rfl, rfl, rfl⟩
    rfl

/-! ### The aliases of an issuer -/

/-- The other path that the aliases carry. -/
def otherPath (suffix : JsString) : JsString := if suffix = [] then js "/oidc" else []

theorem otherPath_rooted (suffix : JsString) : Rooted (otherPath suffix) := by
  unfold otherPath
  split_ifs
  · exact .inr ⟨_, rfl⟩
  · exact .inl rfl

/-- The authorities of the list hold no slash. -/
theorem authorities_closed : ∀ authority ∈ NEXUS_AUTHORITIES, slash ∉ authority := by
  decide +kernel

theorem mem_buildIssuerAliases {issuer : Issuer} (nexus : issuer.Nexus URL) (token : JsString) :
    token ∈ buildIssuerAliases URL issuer.url ↔
      token = issuer.url ∨ ∃ authority ∈ NEXUS_AUTHORITIES,
        token = js "http://" ++ (authority ++ issuer.suffix) ∨
        token = js "http://" ++ (authority ++ otherPath issuer.suffix) := by
  obtain ⟨location, read, listed⟩ := nexus
  unfold buildIssuerAliases
  rw [read]
  dsimp only
  rw [if_neg (not_not_intro listed), pathSuffix_url]
  have added (path : JsString) : token ∈ NEXUS_AUTHORITIES.map
        (fun authority => js "http://" ++ authority ++ path) ↔
      ∃ authority ∈ NEXUS_AUTHORITIES, token = js "http://" ++ (authority ++ path) := by
    simp only [List.mem_map, List.append_assoc, eq_comm]
  have bare : NEXUS_AUTHORITIES.map (fun authority => js "http://" ++ authority) =
      NEXUS_AUTHORITIES.map (fun authority => js "http://" ++ authority ++ []) := by
    simp only [List.append_nil]
  unfold otherPath
  by_cases root : issuer.suffix = []
  · rw [if_neg (not_not_intro root), if_pos root, mem_pushNew, mem_pushNew, added, added,
      List.mem_singleton, or_assoc, ← exists_or]
    simp only [← and_or_left]
  · rw [if_pos root, if_neg root, bare, mem_pushNew, mem_pushNew, added, added,
      List.mem_singleton, or_assoc, ← exists_or]
    simp only [← and_or_left]

/-- One of the spellings that `A` generates. -/
def AliasOf (A B : Issuer) : Prop :=
  B.Listed ∧ (B.path = A.suffix ∨ B.path = otherPath A.suffix)

theorem url_mem_iff {A : Issuer} (nexus : A.Nexus URL) (B : Issuer) :
    B.url ∈ buildIssuerAliases URL A.url ↔ B.url = A.url ∨ AliasOf A B := by
  rw [mem_buildIssuerAliases nexus]
  refine or_congr_right ?_
  have spelled {authority path : JsString} (member : authority ∈ NEXUS_AUTHORITIES)
      (rooted : Rooted path) : B.url = js "http://" ++ (authority ++ path) ↔
        B.scheme = .http ∧ B.authority = authority ∧ B.path = path :=
    @url_eq_iff B .http _ _ (authorities_closed authority member) rooted
  constructor
  · rintro ⟨authority, member, same | same⟩
    · obtain ⟨http, rfl, path⟩ :=
        (spelled member (cleanIssuer_rooted A.rooted)).mp same
      exact ⟨⟨http, member⟩, .inl path⟩
    · obtain ⟨http, rfl, path⟩ := (spelled member (otherPath_rooted A.suffix)).mp same
      exact ⟨⟨http, member⟩, .inr path⟩
  · rintro ⟨⟨http, member⟩, path⟩
    refine ⟨B.authority, member, path.imp ?_ ?_⟩
    · exact fun path => (spelled member (cleanIssuer_rooted A.rooted)).mpr ⟨http, rfl, path⟩
    · exact fun path => (spelled member (otherPath_rooted A.suffix)).mpr ⟨http, rfl, path⟩

/-! ### One way only -/

/-- `B` has the spelling of an alias and `A` cannot be found from it. -/
inductive OneWay (A B : Issuer) : Prop where
  /-- The same path, but `A` is spelled otherwise or ends with a slash. -/
  | same (listed : B.Listed) (path : B.path = A.suffix) (other : ¬ (A.Listed ∧ A.path = A.suffix))
  /-- `/oidc` for no path, with such an `A`. -/
  | oidc (listed : B.Listed) (path : B.path = js "/oidc") (root : A.suffix = [])
    (other : ¬ (A.Listed ∧ A.path = A.suffix))
  /-- No path for another one, which is found from there if it is `/oidc`. -/
  | root (listed : B.Listed) (path : B.path = []) (deeper : A.suffix ≠ [])
    (other : ¬ (A.Listed ∧ A.path = js "/oidc"))

theorem cleanIssuer_shorter (path : JsString) :
    cleanIssuer path = path ∨ (cleanIssuer path).length < path.length := by
  unfold cleanIssuer
  split_ifs with ends
  · right
    have full : path ≠ [] := by
      rintro rfl
      cases ends
    have := List.length_pos_iff.mpr full
    rw [List.length_dropLast]
    omega
  · exact .inl rfl

/-- No path is its own after two slashes are cut, unless there is none to cut. -/
theorem cleanIssuer_twice {path : JsString} (same : path = cleanIssuer (cleanIssuer path)) :
    path = cleanIssuer path := by
  obtain fixed | shorter := cleanIssuer_shorter path
  · exact fixed.symm
  · have length := congrArg List.length same
    obtain fixed | again := cleanIssuer_shorter (cleanIssuer path)
    · rw [fixed] at length
      omega
    · omega

theorem cleanIssuer_nil : cleanIssuer [] = [] := rfl

theorem cleanIssuer_oidc : cleanIssuer (js "/oidc") = js "/oidc" := by decide

variable {A B : Issuer}

/-- From the same path back. -/
theorem aliasOf_same (path : B.path = A.suffix) :
    AliasOf B A ↔ A.Listed ∧ A.path = A.suffix := by
  refine and_congr_right fun _ => ?_
  rw [Issuer.suffix, path]
  constructor
  · rintro (same | other)
    · exact cleanIssuer_twice same
    · unfold otherPath at other
      split_ifs at other with root
      · rw [Issuer.suffix, other, cleanIssuer_oidc] at root
        cases root
      · rw [Issuer.suffix, other] at root
        exact absurd rfl root
  · intro fixed
    left
    rw [← fixed]
    exact fixed

/-- From `/oidc` back. -/
theorem aliasOf_oidc (path : B.path = js "/oidc") (root : A.suffix = []) :
    AliasOf B A ↔ A.Listed ∧ A.path = A.suffix := by
  refine and_congr_right fun _ => ?_
  rw [Issuer.suffix, path, cleanIssuer_oidc, root]
  constructor
  · rintro (same | other)
    · rw [Issuer.suffix, same, cleanIssuer_oidc] at root
      cases root
    · exact other
  · exact .inr

/-- From no path back. -/
theorem aliasOf_root (path : B.path = []) (deeper : A.suffix ≠ []) :
    AliasOf B A ↔ A.Listed ∧ A.path = js "/oidc" := by
  refine and_congr_right fun _ => ?_
  rw [Issuer.suffix, path, cleanIssuer_nil]
  constructor
  · rintro (same | other)
    · rw [Issuer.suffix, same] at deeper
      exact absurd rfl deeper
    · exact other
  · exact .inr

/-- The text of a listed issuer is that of a listed issuer with the same path. -/
theorem listed_of_url (same : A.url = B.url) (listed : B.Listed) : A.Listed ∧ A.path = B.path := by
  obtain ⟨scheme, authority, path⟩ := (url_eq_iff A B.closed B.rooted).mp same
  exact ⟨⟨scheme.trans listed.1, authority ▸ listed.2⟩, path⟩

theorem oneWay_iff : OneWay A B ↔ AliasOf A B ∧ ¬ (A.url = B.url ∨ AliasOf B A) := by
  constructor
  · rintro (⟨listed, path, other⟩ | ⟨listed, path, root, other⟩ | ⟨listed, path, deeper, other⟩)
    · refine ⟨⟨listed, .inl path⟩, ?_⟩
      rw [aliasOf_same path]
      rintro (same | back)
      · obtain ⟨too, paths⟩ := listed_of_url same listed
        exact other ⟨too, paths.trans path⟩
      · exact other back
    · refine ⟨⟨listed, .inr ?_⟩, ?_⟩
      · rw [path, root, otherPath, if_pos rfl]
      · rw [aliasOf_oidc path root]
        rintro (same | back)
        · rw [Issuer.suffix, (listed_of_url same listed).2, path, cleanIssuer_oidc] at root
          cases root
        · exact other back
    · refine ⟨⟨listed, .inr ?_⟩, ?_⟩
      · rw [path, otherPath, if_neg deeper]
      · rw [aliasOf_root path deeper]
        rintro (same | back)
        · rw [Issuer.suffix, (listed_of_url same listed).2, path] at deeper
          exact deeper cleanIssuer_nil
        · exact other back
  · rintro ⟨⟨listed, path⟩, none⟩
    have back : ¬ AliasOf B A := fun found => none (.inr found)
    obtain same | other := path
    · rw [aliasOf_same same] at back
      exact .same listed same back
    · unfold otherPath at other
      split_ifs at other with root
      · rw [aliasOf_oidc other root] at back
        exact .oidc listed other root back
      · rw [aliasOf_root other root] at back
        exact .root listed other root back

/-- Two issuers are aliases of each other or neither is of the other, and tokens pass both ways or
neither, exactly when no way leads from one to the other only. -/
theorem aliases_symmetric_iff (A B : Issuer) (nexusA : A.Nexus URL) (nexusB : B.Nexus URL) :
    ((B.url ∈ buildIssuerAliases URL A.url ↔ A.url ∈ buildIssuerAliases URL B.url) ↔
      ¬ OneWay A B ∧ ¬ OneWay B A) ∧
    ((B.url ∈ acceptedIssuers URL A.url ↔ A.url ∈ acceptedIssuers URL B.url) ↔
      ¬ OneWay A B ∧ ¬ OneWay B A) := by
  rw [mem_acceptedIssuers, mem_acceptedIssuers, and_self, url_mem_iff nexusA, url_mem_iff nexusB,
    oneWay_iff, oneWay_iff, @eq_comm _ B.url A.url]
  tauto

/-- Reads addresses of the form `scheme://host:port/path`. -/
def readLocation (text : JsString) : Option Location :=
  ((text.dropPrefix? (js "http://")).or (text.dropPrefix? (js "https://"))).map fun rest =>
    let authority := rest.takeWhile (· ≠ slash)
    ⟨authority.takeWhile (· ≠ 58), (authority.dropWhile (· ≠ 58)).tail⟩

/-- Issuers of the container. -/
def nexusAt (scheme : Scheme) (path : JsString) (rooted : Rooted path) : Issuer where
  scheme := scheme
  authority := js "nexus:3000"
  path := path
  named := by decide
  closed := by decide
  rooted := rooted

theorem nexusAt_nexus (scheme : Scheme) {path : JsString} (rooted : Rooted path) :
    (nexusAt scheme path rooted).Nexus readLocation := by
  refine ⟨⟨js "nexus", js "3000"⟩, ?_, by decide⟩
  rw [cleanIssuer_url, readLocation, dropPrefix_spelling, Option.map_some]
  dsimp only [Issuer.suffix]
  rw [(span_authority (nexusAt scheme path rooted).closed
    (cleanIssuer_rooted (nexusAt scheme path rooted).rooted)).1]
  rfl

theorem oidc_bothWays :
    (nexusAt .http [] (.inl rfl)).url ∈
        buildIssuerAliases readLocation (nexusAt .http (js "/oidc") (.inr ⟨_, rfl⟩)).url ↔
      (nexusAt .http (js "/oidc") (.inr ⟨_, rfl⟩)).url ∈
        buildIssuerAliases readLocation (nexusAt .http [] (.inl rfl)).url := by
  refine (aliases_symmetric_iff _ _ (nexusAt_nexus .http (.inr ⟨_, rfl⟩))
    (nexusAt_nexus .http (.inl rfl))).1.mpr ⟨?_, ?_⟩
  · rintro (⟨-, path, -⟩ | ⟨-, path, -, -⟩ | ⟨-, -, -, other⟩)
    · exact absurd path (by decide)
    · exact absurd path (by decide)
    · exact other ⟨⟨rfl, by decide⟩, rfl⟩
  · rintro (⟨-, path, -⟩ | ⟨-, -, -, other⟩ | ⟨-, path, -, -⟩)
    · exact absurd path (by decide)
    · exact other ⟨⟨rfl, by decide⟩, rfl⟩
    · exact absurd path (by decide)

/-- A validator configured with a path accepts the issuer without one, which does not accept the
other. -/
theorem path_oneWay :
    js "http://nexus:3000" ∈ buildIssuerAliases readLocation (js "http://nexus:3000/auth") ∧
      js "http://nexus:3000/auth" ∉ buildIssuerAliases readLocation (js "http://nexus:3000") := by
  decide +kernel

end NeuralMesh.Security
