import Orbot.Foundation.System
import Orbot.Foundation.TextParts
import Orbot.OnionService.ListAdapters

/-!
# Keys of v3 services that a client stores

The dialog stores a key only when its address and its hash match the patterns of `checkInput`.
`restoreClientAuthBackup` stores the first and the last of the four parts of a file, whatever they
are, and never looks at the parts between. So all stored keys are well formed in the runs whose
restored files are, as far as they have four parts.
-/

namespace Orbot.OnionService

open Orbot.Foundation

/-- A match of `[a-z0-9]{56}`. -/
def isV3Domain (domain : String) : Bool :=
  domain.toList.length == 56 && domain.toList.all isLowerAlphaNum

/-- A match of `[A-Z2-7]{52}`. -/
def isKeyHash (hash : String) : Bool :=
  hash.toList.length == 52 &&
    hash.toList.all fun c ↦ ('A' ≤ c && c ≤ 'Z') || ('2' ≤ c && c ≤ '7')

def buildV3ClientAuthFile (domain keyHash : String) : String :=
  domain ++ ":descriptor:x25519:" ++ keyHash

/-- A text that Tor writes for a key. -/
def IsClientAuthFile (text : String) : Prop :=
  ∃ domain hash, isV3Domain domain ∧ isKeyHash hash ∧ text = buildV3ClientAuthFile domain hash

def V3ClientAuth.WellFormed (columns : V3ClientAuth) : Prop :=
  (∃ domain ∈ columns.domain, isV3Domain domain) ∧ ∃ hash ∈ columns.hash, isKeyHash hash

def ClientAuthsWellFormed (t : ClientAuthTable) : Prop :=
  ∀ row ∈ t.rows, row.columns.WellFormed

/-- What happens to the table of keys. -/
inductive ClientAuthAction where
  | doSave (onionUrl hash : String)
  | restoreClientAuthBackup (authFileContents : String)
  | onCheckedChanged (id : ℕ) (isChecked : Bool)
  | doDelete (id : ℕ)

/-- The keys, with the dialog that saves only what `checkInput` accepts. -/
def clientAuthSystem : System ClientAuthTable ClientAuthAction where
  init := Table.empty
  enabled _
    | .doSave onionUrl hash => ClientAuthCreateDialogFragment.checkInput onionUrl hash
    | _ => True
  next t
    | .doSave onionUrl hash => ClientAuthCreateDialogFragment.doSave onionUrl hash t
    | .restoreClientAuthBackup authFileContents => restoreClientAuthBackup authFileContents t
    | .onCheckedChanged id isChecked => ClientAuthListAdapter.onCheckedChanged id isChecked t
    | .doDelete id => t.delete fun row ↦ row.id == id

/-- A backup is refused, with no change of the table, unless it is the file of a key. -/
def RefusesOtherFiles (t : ClientAuthTable) : ClientAuthAction → Prop
  | .restoreClientAuthBackup text => IsClientAuthFile text ∨ restoreClientAuthBackup text t = t
  | _ => True

/-- A restored text with three colons before those that end it is the file of a key. -/
def RestoresClientAuthFile : ClientAuthAction → Prop
  | .restoreClientAuthBackup text =>
      (text.toList.rdropWhile (· = ':')).count ':' = 3 → IsClientAuthFile text
  | _ => True

/-! ## What is restored -/

/-- A text with four parts adds a row with the first and the last of them. -/
theorem restoreClientAuthBackup_of_count {text : String}
    (hcount : (text.toList.rdropWhile (· = ':')).count ':' = 3) (t : ClientAuthTable) :
    ∃ domain hash, restoreClientAuthBackup text t =
      t.insert { domain := some domain, hash := some hash } := by
  have hlength : (split ':' text).length = 4 := length_split_eq_iff.mpr hcount
  obtain ⟨domain, descriptor, x25519, hash, hparts⟩ := List.length_eq_four.mp hlength
  exact ⟨domain, hash, by rw [restoreClientAuthBackup, hparts]⟩

theorem restoreClientAuthBackup_of_count_ne {text : String}
    (hcount : (text.toList.rdropWhile (· = ':')).count ':' ≠ 3) (t : ClientAuthTable) :
    restoreClientAuthBackup text t = t := by
  have hlength : (split ':' text).length ≠ 4 := fun h ↦ hcount (length_split_eq_iff.mp h)
  unfold restoreClientAuthBackup
  split
  · next domain _ _ hash hparts => exact absurd (by rw [hparts]; rfl) hlength
  · rfl

theorem insert_ne_self {Columns : Type*} (t : Table Columns) (columns : Columns) :
    t.insert columns ≠ t := by
  intro h
  exact absurd (congrArg Table.nextId h) (Nat.succ_ne_self _)

/-- A backup is restored if and only if three colons precede those that end it. -/
theorem restoreClientAuthBackup_eq_self_iff (text : String) (t : ClientAuthTable) :
    restoreClientAuthBackup text t = t ↔ (text.toList.rdropWhile (· = ':')).count ':' ≠ 3 := by
  constructor
  · intro hsame hcount
    obtain ⟨domain, hash, hrestored⟩ := restoreClientAuthBackup_of_count hcount t
    exact insert_ne_self t _ (hrestored.symm.trans hsame)
  · exact fun hcount ↦ restoreClientAuthBackup_of_count_ne hcount t

theorem colon_not_mem_domain {domain : String} (h : isV3Domain domain) :
    ':' ∉ domain.toList := by
  rw [isV3Domain, Bool.and_eq_true] at h
  exact fun hmem ↦ absurd (List.all_eq_true.mp h.2 _ hmem) (by decide)

theorem colon_not_mem_hash {hash : String} (h : isKeyHash hash) : ':' ∉ hash.toList := by
  rw [isKeyHash, Bool.and_eq_true] at h
  exact fun hmem ↦ absurd (List.all_eq_true.mp h.2 _ hmem) (by decide)

theorem ne_nil_of_isKeyHash {hash : String} (h : isKeyHash hash) : hash.toList ≠ [] := by
  intro hnil
  simp [isKeyHash, hnil] at h

/-- The four parts of a file whose address and hash have no colon. -/
theorem split_authFile {domain hash : String} (hdomain : ':' ∉ domain.toList)
    (hhash : ':' ∉ hash.toList) (hne : hash.toList ≠ []) :
    split ':' (buildV3ClientAuthFile domain hash) = [domain, "descriptor", "x25519", hash] := by
  have hchars : (buildV3ClientAuthFile domain hash).toList =
      domain.toList ++ ':' :: ("descriptor".toList ++ ':' :: ("x25519".toList ++ ':' ::
        hash.toList)) := by
    simp [buildV3ClientAuthFile]
  have hparts : (buildV3ClientAuthFile domain hash).toList.splitOn ':' =
      [domain.toList, "descriptor".toList, "x25519".toList, hash.toList] := by
    rw [hchars, List.splitOn_append_cons_self_of_not_mem hdomain,
      List.splitOn_append_cons_self_of_not_mem (by decide),
      List.splitOn_append_cons_self_of_not_mem (by decide), List.splitOn_eq_singleton hhash]
  have hlast : List.rdropWhile (· = [])
      [domain.toList, "descriptor".toList, "x25519".toList, hash.toList] =
        [domain.toList, "descriptor".toList, "x25519".toList, hash.toList] := by
    rw [List.rdropWhile_eq_self_iff]
    simpa using hne
  unfold split
  rw [if_pos (by simp [hchars]), hparts, hlast]
  simp

/-- Such a file is restored as its address and its hash. -/
theorem restore_authFile {domain hash : String} (hdomain : ':' ∉ domain.toList)
    (hhash : ':' ∉ hash.toList) (hne : hash.toList ≠ []) (t : ClientAuthTable) :
    restoreClientAuthBackup (buildV3ClientAuthFile domain hash) t =
      t.insert { domain := some domain, hash := some hash } := by
  rw [restoreClientAuthBackup, split_authFile hdomain hhash hne]

/-- What Tor writes for a key restores that key. -/
theorem restore_buildV3ClientAuthFile {domain hash : String} (hdomain : isV3Domain domain)
    (hhash : isKeyHash hash) (t : ClientAuthTable) :
    restoreClientAuthBackup (buildV3ClientAuthFile domain hash) t =
      t.insert { domain := some domain, hash := some hash } :=
  restore_authFile (colon_not_mem_domain hdomain) (colon_not_mem_hash hhash)
    (ne_nil_of_isKeyHash hhash) t

/-! ## What is stored -/

/-- The button of the dialog is enabled for well-formed keys. -/
theorem checkInput_eq_true_iff {onionUrl hash : String} :
    ClientAuthCreateDialogFragment.checkInput onionUrl hash = true ↔
      isV3Domain (ClientAuthCreateDialogFragment.sanitizeOnionDomain onionUrl) = true ∧
        isKeyHash hash = true := by
  simp only [ClientAuthCreateDialogFragment.checkInput, isV3Domain, isKeyHash, Bool.and_eq_true,
    and_assoc]

theorem clientAuthsWellFormed_insert {t : ClientAuthTable} (ht : ClientAuthsWellFormed t)
    (columns : V3ClientAuth) :
    ClientAuthsWellFormed (t.insert columns) ↔ columns.WellFormed := by
  rw [ClientAuthsWellFormed, Table.forall_mem_insert]
  exact and_iff_right ht

theorem clientAuthsWellFormed_doSave {t : ClientAuthTable} (ht : ClientAuthsWellFormed t)
    {onionUrl hash : String}
    (hcheck : ClientAuthCreateDialogFragment.checkInput onionUrl hash = true) :
    ClientAuthsWellFormed (clientAuthSystem.next t (.doSave onionUrl hash)) := by
  obtain ⟨hdomain, hhash⟩ := checkInput_eq_true_iff.mp hcheck
  exact (clientAuthsWellFormed_insert ht _).mpr ⟨⟨_, rfl, hdomain⟩, ⟨_, rfl, hhash⟩⟩

theorem clientAuthsWellFormed_onCheckedChanged {t : ClientAuthTable}
    (ht : ClientAuthsWellFormed t) (id : ℕ) (isChecked : Bool) :
    ClientAuthsWellFormed (clientAuthSystem.next t (.onCheckedChanged id isChecked)) := by
  refine Table.forall_mem_update ?_ ht _
  exact fun _ hformed ↦ hformed

theorem clientAuthsWellFormed_doDelete {t : ClientAuthTable} (ht : ClientAuthsWellFormed t)
    (id : ℕ) : ClientAuthsWellFormed (clientAuthSystem.next t (.doDelete id)) :=
  Table.forall_mem_delete ht _

/-- The file of a key is restored as that key. -/
theorem clientAuthsWellFormed_restoreFile {t : ClientAuthTable} (ht : ClientAuthsWellFormed t)
    {domain hash : String} (hdomain : isV3Domain domain) (hhash : isKeyHash hash) :
    ClientAuthsWellFormed (restoreClientAuthBackup (buildV3ClientAuthFile domain hash) t) := by
  rw [restore_buildV3ClientAuthFile hdomain hhash, clientAuthsWellFormed_insert ht]
  exact ⟨⟨_, rfl, hdomain⟩, ⟨_, rfl, hhash⟩⟩

theorem clientAuthSystem_restore {t : ClientAuthTable} (ht : ClientAuthsWellFormed t)
    (text : String) :
    ClientAuthsWellFormed (clientAuthSystem.next t (.restoreClientAuthBackup text)) ∧
        RefusesOtherFiles t (.restoreClientAuthBackup text) ↔
      RestoresClientAuthFile (.restoreClientAuthBackup text) := by
  constructor
  · intro ⟨_, hrefuses⟩ hcount
    exact hrefuses.resolve_right fun hsame ↦
      (restoreClientAuthBackup_eq_self_iff text t).mp hsame hcount
  · intro hfile
    by_cases hcount : (text.toList.rdropWhile (· = ':')).count ':' = 3
    · obtain ⟨domain, hash, hdomain, hhash, rfl⟩ := hfile hcount
      exact ⟨clientAuthsWellFormed_restoreFile ht hdomain hhash,
        .inl ⟨domain, hash, hdomain, hhash, rfl⟩⟩
    · have hsame : clientAuthSystem.next t (.restoreClientAuthBackup text) = t :=
        (restoreClientAuthBackup_eq_self_iff text t).mpr hcount
      rw [hsame]
      exact ⟨ht, .inr hsame⟩

/-- A step keeps all keys well formed and refuses other files if and only if a text that it
restores is the file of a key as soon as it has four parts. -/
theorem clientAuthSystem_step (t : ClientAuthTable) (action : ClientAuthAction)
    (ht : ClientAuthsWellFormed t) (henabled : clientAuthSystem.enabled t action) :
    ClientAuthsWellFormed (clientAuthSystem.next t action) ∧ RefusesOtherFiles t action ↔
      RestoresClientAuthFile action := by
  cases action with
  | doSave onionUrl hash =>
    exact iff_of_true ⟨clientAuthsWellFormed_doSave ht henabled, trivial⟩ trivial
  | restoreClientAuthBackup text => exact clientAuthSystem_restore ht text
  | onCheckedChanged id isChecked =>
    exact iff_of_true ⟨clientAuthsWellFormed_onCheckedChanged ht id isChecked, trivial⟩ trivial
  | doDelete id => exact iff_of_true ⟨clientAuthsWellFormed_doDelete ht id, trivial⟩ trivial

/-- In a run of the table of keys, every state has well-formed keys only and every other file is
refused, if and only if each restored text with three colons before those that end it is the file
of a key. -/
theorem clientAuths_wellFormed_iff (actions : List ClientAuthAction)
    (hrun : clientAuthSystem.Admissible (fun _ _ ↦ True) Table.empty actions) :
    (∀ n, ClientAuthsWellFormed (clientAuthSystem.run Table.empty (actions.take n)) ∧
        ∀ action ∈ actions[n]?,
          RefusesOtherFiles (clientAuthSystem.run Table.empty (actions.take n)) action) ↔
      clientAuthSystem.Admissible (fun _ action ↦ RestoresClientAuthFile action) Table.empty
        actions :=
  (clientAuthSystem.admissible_iff_steps ClientAuthsWellFormed RefusesOtherFiles
    clientAuthSystem_step (by simp [ClientAuthsWellFormed, Table.empty]) hrun).symm

/-- A key that is saved, written to a file, restored, switched off and deleted. -/
theorem clientAuths_wellFormed_saveRestore :
    let domain := String.ofList (List.replicate 56 'a')
    let hash := String.ofList (List.replicate 52 'A')
    let actions : List ClientAuthAction :=
      [.doSave (domain ++ ".onion") hash,
        .restoreClientAuthBackup (buildV3ClientAuthFile domain hash),
        .onCheckedChanged 2 false, .doDelete 1]
    ∀ n, ClientAuthsWellFormed (clientAuthSystem.run Table.empty (actions.take n)) ∧
      ∀ action ∈ actions[n]?,
        RefusesOtherFiles (clientAuthSystem.run Table.empty (actions.take n)) action := by
  intro domain hash actions
  have hdomain : isV3Domain domain = true := by decide
  have hhash : isKeyHash hash = true := by decide
  have hsaved : ClientAuthCreateDialogFragment.checkInput (domain ++ ".onion") hash = true := by
    decide
  exact (clientAuths_wellFormed_iff actions
    ⟨hsaved, trivial, trivial, trivial, trivial, trivial, trivial, trivial, trivial⟩).mpr
    ⟨hsaved, trivial, trivial, fun _ ↦ ⟨domain, hash, hdomain, hhash, rfl⟩, trivial, trivial,
      trivial, trivial, trivial⟩

/-- Any text with four parts is stored as a key. -/
theorem clientAuths_anyFourParts :
    let actions : List ClientAuthAction := [.restoreClientAuthBackup "a:b:c:d"]
    clientAuthSystem.Admissible (fun _ _ ↦ True) Table.empty actions ∧
      (clientAuthSystem.run Table.empty actions).rows =
        [⟨1, { domain := some "a", hash := some "d" }⟩] ∧
      ¬ ∀ n, ClientAuthsWellFormed (clientAuthSystem.run Table.empty (actions.take n)) := by
  have hrows : (restoreClientAuthBackup "a:b:c:d" Table.empty).rows =
      [⟨1, { domain := some "a", hash := some "d" }⟩] := by decide
  refine ⟨⟨trivial, trivial, trivial⟩, hrows, fun hformed ↦ ?_⟩
  obtain ⟨⟨domain, hdomain, hvalid⟩, -⟩ := hformed 1
    ⟨1, { domain := some "a", hash := some "d" }⟩ (hrows ▸ List.mem_singleton_self _)
  obtain rfl := Option.some_inj.mp hdomain
  exact absurd hvalid (by decide)

end Orbot.OnionService
