/-
# Secrets staged for a run

`internal/controller/tenantexport_helpers.go` (`exportJobName`, `runObjectIsOurs`,
`tenantNameFromNamespace`), `tenantexport_placement.go`, `tenantexport_destination.go`, the
passphrase of `tenantexport_encryption.go`, the clean-up of `tenantrestore_controller.go`,
and `ExportCredentialSecretName` of `internal/backup/policy.go`.

A run puts copies of its keys into namespaces that the runs of all tenants share, and removes
them by their names when it ends:

| what | where | name |
| --- | --- | --- |
| an export's keys | beside its units | `tx-<tenant>-<run>-run-creds`, cut |
| a restore's keys | beside its units | `tx-<tenant>-<run>-run-rcreds`, cut |
| a passphrase | beside the object store | `tx-<tenant>-<run>-passphrase` |
| keys of a destination | beside the object store | `tenant-export-destination-<tenant>-<run>` |
| a restore's key | beside the object store | `trs-<tenant>-<run>-key` |

Run `b-c` of tenant `a` and run `c` of tenant `a-b` have the same names, so that one removes
what the other staged (`other_runs_secret_deleted`).
-/

import Gentian.Backup.Destination
import Gentian.Export.Turns

namespace Gentian.Export

open GoStrings Backup List Option

/-! ### Names -/

/-- The tenant of a namespace, empty where it is none's. -/
def tenantNameFromNamespace (ns : String) : String :=
  if !hasPrefix ns "tenant-" || ns = "tenant-" then "" else trimPrefix ns "tenant-"

/-- The first four bytes of a `sha256` sum, in hexadecimal. -/
structure Digest where
  hex : String → String
  length_hex : ∀ s, (hex s).length = 8
  digits : ∀ s, ∀ c ∈ (hex s).toList, c ∈ "0123456789abcdef".toList

/-- The name of a Job or Secret of a run, before it is cut. -/
def wholeName (tenantName exportName appName unit : String) : String :=
  "tx-" ++ tenantName ++ "-" ++ exportName ++ "-" ++ appName ++ "-" ++ unit

/-- The digest that shortens a name. -/
def Digest.ofName (d : Digest) (tenantName exportName appName unit : String) : String :=
  d.hex (tenantName ++ "\x00" ++ exportName ++ "\x00" ++ appName ++ "\x00" ++ unit)

/-- `exportJobName`. -/
def exportJobName (d : Digest) (tenantName exportName appName unit : String) : String :=
  let name := wholeName tenantName exportName appName unit
  if name.length ≤ 52 then name
  else
    let tail := "-" ++ d.ofName tenantName exportName appName unit ++ "-" ++ unit
    let keep := max 1 (52 - tail.length)
    trimRight (String.ofList (name.toList.take keep)) "-." ++ tail

/-- The Secret an export stages. -/
def stagedSecretName (d : Digest) (tenantName exportName : String) : String :=
  exportJobName d tenantName exportName "run" "creds"

/-- The Secret a restore stages. -/
def restoreStagedSecretName (d : Digest) (tenantName restoreName : String) : String :=
  exportJobName d tenantName restoreName "run" "rcreds"

/-- The Secret with an export's passphrase. -/
def passphraseSecretName (tenantName exportName : String) : String :=
  "tx-" ++ tenantName ++ "-" ++ exportName ++ "-passphrase"

/-- The Secret with a restore's key. -/
def stagedDecryptionSecretName (tenantName restoreName : String) : String :=
  "trs-" ++ tenantName ++ "-" ++ restoreName ++ "-key"

/-! ### Namespaces -/

/-- The namespace of the object store. -/
def s3Namespace : String := "system-s3"

/-- The namespaces of kernel functions, which an installation can name itself.  They are no
tenant's. -/
structure Layout where
  authentication : String
  data : String
  authentication_kernel : tenantNameFromNamespace authentication = ""
  data_kernel : tenantNameFromNamespace data = ""

/-- Namespaces without the empty one, each once. -/
def dedupe (ns : List String) : List String := (ns.filter fun n => n ≠ "").eraseDups

/-- The namespaces a run may stage Secrets in. -/
def runNamespaces (l : Layout) (tenantNamespace : String) : List String :=
  dedupe [s3Namespace, "system-postgresql", "system-mariadb", l.authentication, tenantNamespace,
    "system-mail", l.data]

/-! ### Runs -/

/-- A `TenantExport` or `TenantRestore`, with the namespace it is in. -/
structure Run where
  kind : RunKind
  home : String
  name : String
  uid : String
deriving DecidableEq

/-- The tenant of a run, by its namespace. -/
def Run.tenant (r : Run) : String := tenantNameFromNamespace r.home

/-- The entries of a Secret. -/
abbrev SecretData := List (String × String)

/-- The namespace and the name of a Secret. -/
abbrev SecretKey := String × String

/-- The entries of a Secret under some keys, each of which must be there and not empty. -/
def pick (keys : List String) (source : Option SecretData) : Option SecretData :=
  source.bind fun data => keys.mapM fun k =>
    (data.lookup k).bind fun v => if v = "" then none else some (k, v)

/-- What a run stages, with the Secrets it copies from as it found them: its keys in a
namespace, with the passphrase or the key to open the bundle when that is needed there; the
keys of a destination; a passphrase; the key of a restore. -/
inductive Staging where
  | keys (ns : String) (source : Option SecretData) (external : Bool)
      (extra : Option (String × Option SecretData))
  | destination (source : Option SecretData)
  | passphrase (key : String) (source : Option SecretData)
  | decryption (key : String) (source : Option SecretData)
deriving DecidableEq

/-- The data of the copy: `stageRunSecret`, `stageDestinationCredential`, `stagePassphrase`,
`stageDecryptionSecret`. -/
def Staging.data : Staging → Option SecretData
  | .keys _ source external extra => do
    let more ← match extra with
      | none => some []
      | some (key, found) => pick [key] found
    let want := if external then ["accessKey", "secretKey"] else ["endpoint", "accessKey", "secretKey"]
    let data ← pick want source
    return more ++ data
  | .destination source => pick ["accessKey", "secretKey"] source
  | .passphrase key source | .decryption key source => pick [key] source

/-- The name of the copy that a run stages beside its units. -/
def Run.stagedName (d : Digest) (r : Run) : String :=
  match r.kind with
  | .tenantExport => stagedSecretName d r.tenant r.name
  | .tenantRestore => restoreStagedSecretName d r.tenant r.name

/-- Where the copy goes.  Keys are staged in every namespace of the run but the object
store's. -/
def Staging.key (l : Layout) (d : Digest) (r : Run) : Staging → Option SecretKey
  | .keys ns _ _ _ =>
    if ns ∈ runNamespaces l r.home ∧ ns ≠ s3Namespace then some (ns, r.stagedName d) else none
  | .destination _ =>
    if r.kind = .tenantExport then some (s3Namespace, exportCredentialSecretName r.tenant r.name)
    else none
  | .passphrase _ _ =>
    if r.kind = .tenantExport then some (s3Namespace, passphraseSecretName r.tenant r.name) else none
  | .decryption _ _ =>
    if r.kind = .tenantRestore then some (s3Namespace, stagedDecryptionSecretName r.tenant r.name)
    else none

/-- What a run removes by name: `discardStagedIn` and beside the object store, for an export
`discardPassphrase` and `discardDestinationCredential`, for a restore
`discardStagedRestoreSecrets`. -/
def Run.discards (l : Layout) (d : Digest) (r : Run) : List SecretKey :=
  let staged := ((runNamespaces l r.home).filter fun ns => ns ≠ s3Namespace).map fun ns =>
    (ns, r.stagedName d)
  match r.kind with
  | .tenantExport =>
    staged ++ [(s3Namespace, passphraseSecretName r.tenant r.name),
      (s3Namespace, exportCredentialSecretName r.tenant r.name)]
  | .tenantRestore => (s3Namespace, stagedDecryptionSecretName r.tenant r.name) :: staged

/-! ### Steps -/

/-- A Secret: its labels `tenant` and `tenant-export`, its data, its controller, and its
resource version.  `maker` is no part of the object: the run that staged it. -/
structure Secret where
  tenant : String
  run : String
  data : SecretData
  controller : Option String
  version : ℕ
  maker : Option Run
deriving DecidableEq

/-- Whether a Secret says that it is the run's. -/
def runObjectIsOurs (secret : Secret) (tenantName runName : String) : Bool :=
  secret.tenant = tenantName && secret.run = runName

/-- A write of `putRunSecret` that is still to come, with what its `Get` found. -/
structure Write where
  run : Run
  key : SecretKey
  data : SecretData
  found : Option Secret
deriving DecidableEq

/-- The Secrets of the cluster, the next resource version, the writes that are still to
come, and the Secrets of its own namespace that a run has found to be its own. -/
structure Shelf where
  secrets : SecretKey → Option Secret
  next : ℕ
  writes : List Write
  marked : List (Run × SecretKey)

/-- Whether a Secret in its own namespace is the run's to remove: `discardExportSecretsIn`
and `discardOwnedDecryptionSecrets`. -/
def Run.marks (r : Run) (secret : Secret) : Bool :=
  match r.kind with
  | .tenantExport => secret.run = r.name
  | .tenantRestore => r.uid ≠ "" && secret.controller = some r.uid

/-- `putRunSecret` up to its write. -/
def Shelf.get (s : Shelf) (r : Run) (key : SecretKey) (data : SecretData) : Shelf :=
  match s.secrets key with
  | none => { s with writes := s.writes ++ [⟨r, key, data, none⟩] }
  | some secret =>
    if runObjectIsOurs secret r.tenant r.name = false || secret.data = data then s
    else { s with writes := s.writes ++ [⟨r, key, data, some secret⟩] }

/-- The Secrets with one written. -/
def Shelf.set (s : Shelf) (key : SecretKey) (secret : Secret) : Shelf :=
  { s with
    secrets := Function.update s.secrets key (some { secret with version := s.next })
    next := s.next + 1 }

/-- The write of `putRunSecret`.  A `Create` is refused when there is a Secret, an `Update`
when it is not the one that was read. -/
def Shelf.put (s : Shelf) (w : Write) : Shelf :=
  match w.found, s.secrets w.key with
  | none, none => s.set w.key ⟨w.run.tenant, w.run.name, w.data, none, 0, some w.run⟩
  | some old, some current =>
    if current.version = old.version then s.set w.key { old with data := w.data } else s
  | _, _ => s

/-- A step of a run: the `Get` of a staging, its write, which may fail, a look at a Secret in
the run's own namespace, and a `Delete`. -/
inductive StageMove where
  | get (r : Run) (what : Staging)
  | put (r : Run) (index : ℕ) (reached : Bool)
  | mark (r : Run) (key : SecretKey)
  | delete (r : Run) (key : SecretKey)
deriving DecidableEq

/-- The run of a move. -/
def StageMove.run : StageMove → Run
  | .get r _ | .put r _ _ | .mark r _ | .delete r _ => r

/-- One step.  A run whose namespace is no tenant's stages nothing. -/
def stageStep (l : Layout) (d : Digest) (s : Shelf) : StageMove → Option Shelf
  | .get r what =>
    if r.tenant = "" then none
    else match what.key l d r, what.data with
      | some key, some data => some (s.get r key data)
      | some _, none => some s
      | none, _ => none
  | .put r index reached =>
    match s.writes[index]? with
    | some w =>
      if w.run ≠ r then none
      else
        let rest := { s with writes := s.writes.eraseIdx index }
        some (if reached then rest.put w else rest)
    | none => none
  | .mark r key =>
    match s.secrets key with
    | some secret =>
      if key.1 = r.home && r.marks secret then some { s with marked := s.marked ++ [(r, key)] }
      else none
    | none => none
  | .delete r key =>
    if key ∈ r.discards l d ∨ (r, key) ∈ s.marked then
      some { s with secrets := Function.update s.secrets key none }
    else none

/-! ### Names of runs of different tenants -/

section names

variable {d : Digest} {t e t' e' app unit unit' : String}

/-- A name is whole, or cut and marked with a digest. -/
theorem exportJobName_cases (d : Digest) (t e app unit : String) :
    exportJobName d t e app unit = wholeName t e app unit ∨ 52 < (wholeName t e app unit).length ∧
        ∃ x, exportJobName d t e app unit = x ++ ("-" ++ d.ofName t e app unit ++ "-" ++ unit) := by
  rw [exportJobName]
  split_ifs
  · exact .inl rfl
  · exact .inr ⟨by omega, _, rfl⟩

theorem exportJobName_suffix (d : Digest) (t e app unit : String) :
    ∃ x, exportJobName d t e app unit = x ++ ("-" ++ unit) := by
  rcases exportJobName_cases d t e app unit with h | ⟨-, x, h⟩
  · exact ⟨"tx-" ++ t ++ "-" ++ e ++ "-" ++ app, by simp only [h, wholeName, String.append_assoc]⟩
  · exact ⟨x ++ ("-" ++ d.ofName t e app unit), by simp only [h, String.append_assoc]⟩

/-- No whole name is a cut one. -/
theorem wholeName_ne_cut (d : Digest) {x y : String} :
    x ++ "-run" ++ ("-" ++ unit) ≠ y ++ ("-" ++ d.hex e ++ "-" ++ unit) := by
  intro h
  have hcut : x ++ "-run" = y ++ "-" ++ d.hex e := by
    refine (String.append_left_inj ("-" ++ unit)).1 (h.trans ?_)
    simp only [String.append_assoc]
  have hlast := congrArg (fun s : String => s.toList.getLast?) hcut
  have hne : (d.hex e).toList ≠ [] := fun hnil => by
    have := d.length_hex e
    simp [← String.length_toList, hnil] at this
  simp only [String.toList_append, getLast?_append_of_ne_nil _ hne] at hlast
  have hmem : 'n' ∈ (d.hex e).toList := mem_of_getLast? (hlast.symm.trans (by simp))
  exact absurd (d.digits e _ hmem) (by decide)

/-- Two names of one unit are equal only when tenant and run are joined to the same text, or
both are cut and carry one digest. -/
theorem exportJobName_inj (h : exportJobName d t e "run" unit = exportJobName d t' e' "run" unit) :
    t ++ "-" ++ e = t' ++ "-" ++ e' ∨
      52 < (wholeName t e "run" unit).length ∧ 52 < (wholeName t' e' "run" unit).length ∧
        d.ofName t e "run" unit = d.ofName t' e' "run" unit := by
  have hwhole : ∀ a b, wholeName a b "run" unit =
      "tx-" ++ (a ++ "-" ++ b) ++ "-run" ++ ("-" ++ unit) := fun a b => by
    simp only [wholeName, String.append_assoc]
    rfl
  rcases exportJobName_cases d t e "run" unit with h1 | ⟨hlen, x, h1⟩
  · rcases exportJobName_cases d t' e' "run" unit with h2 | ⟨-, y, h2⟩
    · left
      rw [h1, h2, hwhole, hwhole] at h
      exact (String.append_right_inj _).1 ((String.append_left_inj _).1
        ((String.append_left_inj _).1 h))
    · rw [h1, h2, hwhole] at h
      exact absurd h (wholeName_ne_cut d)
  · rcases exportJobName_cases d t' e' "run" unit with h2 | ⟨hlen', y, h2⟩
    · rw [h1, h2, hwhole] at h
      exact absurd h.symm (wholeName_ne_cut d)
    · right
      refine ⟨hlen, hlen', ?_⟩
      rw [h1, h2] at h
      have hlist : x.toList ++ ("-" ++ d.ofName t e "run" unit ++ "-" ++ unit).toList =
          y.toList ++ ("-" ++ d.ofName t' e' "run" unit ++ "-" ++ unit).toList := by
        rw [← String.toList_append, ← String.toList_append, h]
      have htail := (append_inj' hlist (by simp [Digest.ofName, String.length_toList, d.length_hex])).2
      exact (String.append_right_inj _).1 ((String.append_left_inj _).1
        ((String.append_left_inj _).1 (String.toList_inj.1 htail)))

/-- What an export stages a restore does not. -/
theorem creds_ne_rcreds : exportJobName d t e app "creds" ≠ exportJobName d t' e' app "rcreds" := by
  intro h
  obtain ⟨x, hx⟩ := exportJobName_suffix d t e app "creds"
  obtain ⟨y, hy⟩ := exportJobName_suffix d t' e' app "rcreds"
  rw [hx, hy] at h
  have hlist := congrArg (fun s : String => s.toList.reverse) h
  simp at hlist

end names

/-! ### Runs whose names are apart -/

/-- The unit of the name that a run's keys are staged under. -/
def Run.unit (r : Run) : String :=
  match r.kind with
  | .tenantExport => "creds"
  | .tenantRestore => "rcreds"

/-- Whether the name that a run's keys are staged under is cut. -/
def Run.isCut (r : Run) : Bool := 52 < (wholeName r.tenant r.name "run" r.unit).length

/-- Neither tenant's name and a hyphen begin the other's name and, when the names that both
stage their keys under are cut, the digests differ. -/
def Run.Apart (d : Digest) (r r' : Run) : Prop :=
  hasPrefix r'.tenant (r.tenant ++ "-") = false ∧ hasPrefix r.tenant (r'.tenant ++ "-") = false ∧
    (r.kind = r'.kind → r.isCut = true → r'.isCut = true →
      d.ofName r.tenant r.name "run" r.unit ≠ d.ofName r'.tenant r'.name "run" r'.unit)
deriving Decidable

/-- A Secret that a run may stage. -/
def StagedAt (l : Layout) (d : Digest) (r : Run) (key : SecretKey) : Prop :=
  ∃ what : Staging, what.key l d r = some key

section apart

variable {l : Layout} {d : Digest} {r r' : Run} {key : SecretKey}

theorem stagedName_eq (d : Digest) (r : Run) :
    r.stagedName d = exportJobName d r.tenant r.name "run" r.unit := by
  cases h : r.kind <;>
    simp [Run.stagedName, Run.unit, h, stagedSecretName, restoreStagedSecretName]

theorem Run.Apart.join_ne (h : r.Apart d r') (hne : r.tenant ≠ r'.tenant) :
    r.tenant ++ "-" ++ r.name ≠ r'.tenant ++ "-" ++ r'.name := by
  intro heq
  rcases join_nested rfl heq with heq | hp | hp
  · exact hne heq
  · exact absurd hp (by simp [h.1])
  · exact absurd hp (by simp [h.2.1])

/-- Runs of two tenants stage under two names. -/
theorem Run.Apart.stagedName_ne (h : r.Apart d r') (hne : r.tenant ≠ r'.tenant) :
    r.stagedName d ≠ r'.stagedName d := by
  intro heq
  rw [stagedName_eq, stagedName_eq] at heq
  by_cases hkind : r.kind = r'.kind
  · have hunit : r.unit = r'.unit := by simp [Run.unit, hkind]
    rw [← hunit] at heq
    rcases exportJobName_inj heq with hjoin | ⟨hlen, hlen', hdigest⟩
    · exact h.join_ne hne hjoin
    · refine h.2.2 hkind (by simpa [Run.isCut] using hlen) ?_ (hunit ▸ hdigest)
      simpa [Run.isCut, ← hunit] using hlen'
  · cases hk : r.kind <;> cases hk' : r'.kind <;> simp only [Run.unit, hk, hk'] at heq
    · exact hkind (hk.trans hk'.symm)
    · exact creds_ne_rcreds heq
    · exact creds_ne_rcreds heq.symm
    · exact hkind (hk.trans hk'.symm)

/-- The Secrets of a run's own, beside those it stages. -/
def Run.beside (r : Run) : List String :=
  match r.kind with
  | .tenantExport =>
    [passphraseSecretName r.tenant r.name, exportCredentialSecretName r.tenant r.name]
  | .tenantRestore => [stagedDecryptionSecretName r.tenant r.name]

theorem heads_ne {head head' x y : String} (h : hasPrefix head' head = false)
    (h' : hasPrefix head head' = false) : head ++ x ≠ head' ++ y := fun heq => by
  rcases hasPrefix_of_append_eq heq with hp | hp
  · exact absurd hp (by simp [h])
  · exact absurd hp (by simp [h'])

theorem append_join (head t e : String) : head ++ t ++ "-" ++ e = head ++ (t ++ "-" ++ e) := by
  simp only [String.append_assoc]

theorem passphraseSecretName_eq (t e : String) :
    passphraseSecretName t e = "tx-" ++ (t ++ "-" ++ e ++ "-passphrase") := by
  rw [passphraseSecretName, append_join, String.append_assoc]

theorem exportCredentialSecretName_eq (t e : String) :
    exportCredentialSecretName t e = "tenant-export-destination-" ++ (t ++ "-" ++ e) :=
  append_join "tenant-export-destination-" t e

theorem stagedDecryptionSecretName_eq (t e : String) :
    stagedDecryptionSecretName t e = "trs-" ++ (t ++ "-" ++ e ++ "-key") := by
  rw [stagedDecryptionSecretName, append_join, String.append_assoc]

theorem Run.Apart.beside_ne (h : r.Apart d r') (hne : r.tenant ≠ r'.tenant) :
    passphraseSecretName r.tenant r.name ≠ passphraseSecretName r'.tenant r'.name ∧
      exportCredentialSecretName r.tenant r.name ≠ exportCredentialSecretName r'.tenant r'.name ∧
      stagedDecryptionSecretName r.tenant r.name ≠ stagedDecryptionSecretName r'.tenant r'.name := by
  refine ⟨fun heq => ?_, fun heq => ?_, fun heq => ?_⟩
  · rw [passphraseSecretName_eq, passphraseSecretName_eq] at heq
    exact h.join_ne hne ((String.append_left_inj _).1 ((String.append_right_inj _).1 heq))
  · rw [exportCredentialSecretName_eq, exportCredentialSecretName_eq] at heq
    exact h.join_ne hne ((String.append_right_inj _).1 heq)
  · rw [stagedDecryptionSecretName_eq, stagedDecryptionSecretName_eq] at heq
    exact h.join_ne hne ((String.append_left_inj _).1 ((String.append_right_inj _).1 heq))

theorem passphrase_ne_credential (t e t' e' : String) :
    passphraseSecretName t e ≠ exportCredentialSecretName t' e' := by
  rw [passphraseSecretName_eq, exportCredentialSecretName_eq]
  exact heads_ne (by decide +kernel) (by decide +kernel)

theorem passphrase_ne_decryption (t e t' e' : String) :
    passphraseSecretName t e ≠ stagedDecryptionSecretName t' e' := by
  rw [passphraseSecretName_eq, stagedDecryptionSecretName_eq]
  exact heads_ne (by decide +kernel) (by decide +kernel)

theorem credential_ne_decryption (t e t' e' : String) :
    exportCredentialSecretName t e ≠ stagedDecryptionSecretName t' e' := by
  rw [exportCredentialSecretName_eq, stagedDecryptionSecretName_eq]
  exact heads_ne (by decide +kernel) (by decide +kernel)

/-- Nor have they another Secret in common. -/
theorem Run.Apart.beside_disjoint (h : r.Apart d r') (hne : r.tenant ≠ r'.tenant) {name : String}
    (hr : name ∈ r.beside) : name ∉ r'.beside := by
  intro hr'
  obtain ⟨hpass, hcred, hkey⟩ := h.beside_ne hne
  cases hk : r.kind <;> cases hk' : r'.kind <;>
    simp only [Run.beside, hk, hk', mem_cons, not_mem_nil, or_false] at hr hr'
  · rcases hr with rfl | rfl <;> rcases hr' with heq | heq
    · exact hpass heq
    · exact passphrase_ne_credential _ _ _ _ heq
    · exact passphrase_ne_credential _ _ _ _ heq.symm
    · exact hcred heq
  · rcases hr with rfl | rfl
    · exact passphrase_ne_decryption _ _ _ _ hr'
    · exact credential_ne_decryption _ _ _ _ hr'
  · rcases hr' with rfl | rfl
    · exact passphrase_ne_decryption _ _ _ _ hr
    · exact credential_ne_decryption _ _ _ _ hr
  · exact hkey (hr.symm.trans hr')

/-- What a run discards at its end. -/
theorem mem_discards : key ∈ r.discards l d ↔
    key.1 ≠ s3Namespace ∧ key.1 ∈ runNamespaces l r.home ∧ key.2 = r.stagedName d ∨
      key.1 = s3Namespace ∧ key.2 ∈ r.beside := by
  cases hk : r.kind <;> simp [Run.discards, Run.beside] <;> grind

/-- **What a run stages is what it removes by name.** -/
theorem stagedAt_iff : StagedAt l d r key ↔ key ∈ r.discards l d := by
  rw [mem_discards]
  obtain ⟨ns, -⟩ := key
  constructor
  · rintro ⟨what, hkey⟩
    cases what <;> simp only [Staging.key, ite_none_right_eq_some] at hkey <;>
      obtain ⟨hguard, hkey⟩ := hkey <;> cases hkey
    all_goals simp [Run.beside, hguard]
  · rintro (⟨hs3, hns, rfl⟩ | ⟨rfl, hname⟩)
    · exact ⟨.keys ns none false none, by simp [Staging.key, hns, hs3]⟩
    · cases hk : r.kind <;> simp only [Run.beside, hk, mem_cons, not_mem_nil, or_false] at hname
      · rcases hname with rfl | rfl
        · exact ⟨.passphrase "" none, by simp [Staging.key, hk]⟩
        · exact ⟨.destination none, by simp [Staging.key, hk]⟩
      · subst hname
        exact ⟨.decryption "" none, by simp [Staging.key, hk]⟩

/-- **What one run stages, a run of another tenant does not remove by name.** -/
theorem Run.Apart.not_discarded (h : r.Apart d r') (hne : r.tenant ≠ r'.tenant)
    (hkey : StagedAt l d r' key) : key ∉ r.discards l d := by
  intro hmem
  rw [stagedAt_iff, mem_discards] at hkey
  rcases mem_discards.1 hmem with ⟨hs3, -, hname⟩ | ⟨hs3, hname⟩
  · rcases hkey with ⟨-, -, hname'⟩ | ⟨hs3', -⟩
    · exact h.stagedName_ne hne (hname.symm.trans hname')
    · exact hs3 hs3'
  · rcases hkey with ⟨hs3', -⟩ | ⟨-, hname'⟩
    · exact hs3' hs3
    · exact h.beside_disjoint hne hname hname'

/-- The namespaces of a run are its tenant's and those of no tenant. -/
theorem home_of_mem_runNamespaces {ns : String} (h : ns ∈ runNamespaces l r.home) :
    ns = r.home ∨ tenantNameFromNamespace ns = "" := by
  have h := (mem_filter.1 (mem_eraseDups.1 h)).1
  simp only [mem_cons, not_mem_nil, or_false] at h
  rcases h with rfl | rfl | rfl | rfl | h | rfl | rfl
  · exact .inr (by decide +kernel)
  · exact .inr (by decide +kernel)
  · exact .inr (by decide +kernel)
  · exact .inr l.authentication_kernel
  · exact .inl h
  · exact .inr (by decide +kernel)
  · exact .inr l.data_kernel

theorem home_ne (htenant : r.tenant ≠ "") (hne : r.tenant ≠ r'.tenant)
    (hkey : StagedAt l d r' key) : key.1 ≠ r.home := by
  intro hhome
  rw [stagedAt_iff, mem_discards, hhome] at hkey
  rcases hkey with ⟨-, hns, -⟩ | ⟨hs3, -⟩
  · rcases home_of_mem_runNamespaces hns with heq | hnone
    · exact hne (congrArg tenantNameFromNamespace heq)
    · exact htenant hnone
  · exact htenant ((congrArg tenantNameFromNamespace hs3).trans (by decide +kernel))

end apart

/-! ### Runs of the machine -/

/-- A write that is still to come: it is the run's, for a key it stages under, and an update
is of a Secret that was the run's when it was read and has not changed unless its version
has. -/
structure Write.Ready (l : Layout) (d : Digest) (runs : List Run) (s : Shelf) (w : Write) : Prop where
  mem : w.run ∈ runs
  key : StagedAt l d w.run w.key
  ours : ∀ old, w.found = some old → runObjectIsOurs old w.run.tenant w.run.name = true
  older : ∀ old, w.found = some old → old.version < s.next
  same : ∀ old current, w.found = some old → s.secrets w.key = some current →
    current.version = old.version → current = old

/-- What holds at any time: versions are old, a Secret that a run staged is under a key of it
and has its tenant for a label, and only Secrets of its own namespace are marked. -/
structure Shelf.Sound (l : Layout) (d : Digest) (runs : List Run) (s : Shelf) : Prop where
  fresh : ∀ key secret, s.secrets key = some secret → secret.version < s.next
  staged : ∀ key secret r, s.secrets key = some secret → secret.maker = some r →
    r ∈ runs ∧ secret.tenant = r.tenant ∧ StagedAt l d r key
  writes : ∀ w ∈ s.writes, w.Ready l d runs s
  marked : ∀ e ∈ s.marked, e.2.1 = e.1.home

/-- No run has begun: there may be Secrets, but none that a run staged. -/
structure Shelf.Unstaged (s : Shelf) : Prop where
  fresh : ∀ key secret, s.secrets key = some secret → secret.version < s.next
  maker : ∀ key secret, s.secrets key = some secret → secret.maker = none
  writes : s.writes = []
  marked : s.marked = []

/-- **The step leaves alone what runs of other tenants staged.** -/
def LeavesAlone (s s' : Shelf) (r : Run) : Prop :=
  ∀ key secret maker, s.secrets key = some secret → secret.maker = some maker →
    maker.tenant ≠ r.tenant → s'.secrets key = some secret

section machine

variable {l : Layout} {d : Digest} {runs : List Run} {s s' : Shelf} {m : StageMove} {w : Write}

theorem Shelf.Unstaged.sound (h : s.Unstaged) : s.Sound l d runs where
  fresh := h.fresh
  staged := fun key secret r hs hm => by simp [h.maker key secret hs] at hm
  writes := fun w hw => by simp [h.writes] at hw
  marked := fun e he => by simp [h.marked] at he

/-- A write that is ready stays so. -/
theorem Write.Ready.set (hw : w.Ready l d runs s) (key : SecretKey) (secret : Secret) :
    w.Ready l d runs (s.set key secret) where
  mem := hw.mem
  key := hw.key
  ours := hw.ours
  older := fun old hold => Nat.lt_succ_of_lt (hw.older old hold)
  same := fun old current hold hcurrent hversion => by
    simp only [Shelf.set, Function.update_apply] at hcurrent
    split_ifs at hcurrent
    · cases hcurrent
      exact absurd hversion (Nat.ne_of_gt (hw.older old hold))
    · exact hw.same old current hold hcurrent hversion

/-- A Secret is written where its run may stage. -/
theorem Shelf.Sound.set (h : s.Sound l d runs) {key : SecretKey} {secret : Secret}
    (hstaged : ∀ r, secret.maker = some r → r ∈ runs ∧ secret.tenant = r.tenant ∧ StagedAt l d r key) :
    (s.set key secret).Sound l d runs where
  fresh := fun key' secret' hs => by
    simp only [Shelf.set, Function.update_apply] at hs
    split_ifs at hs
    · cases hs
      exact Nat.lt_succ_self _
    · exact Nat.lt_succ_of_lt (h.fresh key' secret' hs)
  staged := fun key' secret' r hs hm => by
    simp only [Shelf.set, Function.update_apply] at hs
    split_ifs at hs with heq
    · cases hs
      subst heq
      exact hstaged r hm
    · exact h.staged key' secret' r hs hm
  writes := fun w hw => (h.writes w hw).set key secret
  marked := h.marked

/-- **`putRunSecret` up to its write** reads and changes no Secret. -/
theorem Shelf.Sound.get (h : s.Sound l d runs) {r : Run} {key : SecretKey} {data : SecretData}
    (hr : r ∈ runs) (hkey : StagedAt l d r key) : (s.get r key data).Sound l d runs := by
  have hadd : ∀ w, w.Ready l d runs s →
      ({ s with writes := s.writes ++ [w] } : Shelf).Sound l d runs := fun w hw => by
    refine ⟨h.fresh, h.staged, fun w' hw' => ?_, h.marked⟩
    rcases mem_append.1 hw' with hold | hnew
    · obtain ⟨hmem, hkey, hours, holder, hsame⟩ := h.writes w' hold
      exact ⟨hmem, hkey, hours, holder, hsame⟩
    · obtain rfl := mem_singleton.1 hnew
      exact ⟨hw.mem, hw.key, hw.ours, hw.older, hw.same⟩
  cases hs : s.secrets key with
  | none =>
    rw [Shelf.get, hs]
    exact hadd _ ⟨hr, hkey, by simp, by simp, by simp⟩
  | some _ =>
    simp only [Shelf.get, hs]
    split_ifs with hskip
    · exact h
    · rw [Bool.or_eq_true, not_or] at hskip
      refine hadd _ ⟨hr, hkey, fun old hold => ?_, fun old hold => ?_, fun old _ hold hc _ => ?_⟩
      · cases hold
        simpa using hskip.1
      · cases hold
        exact h.fresh key _ hs
      · exact some.inj (hc.symm.trans (hs.trans hold))

theorem get_secrets (s : Shelf) (r : Run) (key : SecretKey) (data : SecretData) :
    (s.get r key data).secrets = s.secrets := by
  unfold Shelf.get
  split
  · rfl
  · split_ifs <;> rfl

/-- **The write of `putRunSecret`**: a Secret is made where there was none, or one whose
labels name the run's tenant is updated. -/
theorem Shelf.Sound.put (h : s.Sound l d runs) (hw : w.Ready l d runs s) :
    (s.put w).Sound l d runs ∧ LeavesAlone s (s.put w) w.run := by
  cases hfound : w.found with
  | none =>
    cases hs : s.secrets w.key with
    | none =>
      rw [Shelf.put, hfound, hs]
      refine ⟨h.set fun r hr => ?_, fun key secret maker hsecret _ _ => ?_⟩
      · cases hr
        exact ⟨hw.mem, rfl, hw.key⟩
      · have hne : key ≠ w.key := fun heq => by
          rw [heq, hs] at hsecret
          cases hsecret
        simpa [Shelf.set, hne] using hsecret
    | some current =>
      rw [Shelf.put, hfound, hs]
      exact ⟨h, fun _ _ _ hsecret _ _ => hsecret⟩
  | some old =>
    cases hs : s.secrets w.key with
    | none =>
      rw [Shelf.put, hfound, hs]
      exact ⟨h, fun _ _ _ hsecret _ _ => hsecret⟩
    | some current =>
      simp only [Shelf.put, hfound, hs]
      split_ifs with hversion
      · obtain rfl := hw.same old current hfound hs hversion
        refine ⟨h.set fun r hr => h.staged w.key current r hs hr,
          fun key secret maker hsecret hm hother => ?_⟩
        have hne : key ≠ w.key := fun heq => by
          subst heq
          cases hs.symm.trans hsecret
          have hours := hw.ours _ hfound
          rw [runObjectIsOurs, Bool.and_eq_true, decide_eq_true_eq] at hours
          exact hother ((h.staged _ _ maker hs hm).2.1.symm.trans hours.1)
        simpa [Shelf.set, hne] using hsecret
      · exact ⟨h, fun _ _ _ hsecret _ _ => hsecret⟩

theorem Shelf.Sound.delete (h : s.Sound l d runs) (key : SecretKey) :
    ({ s with secrets := Function.update s.secrets key none } : Shelf).Sound l d runs := by
  have hold : ∀ key' secret, Function.update s.secrets key none key' = some secret →
      s.secrets key' = some secret := fun key' secret hs => by
    rw [Function.update_apply] at hs
    split_ifs at hs
    exact hs
  refine ⟨fun k secret hs => h.fresh k secret (hold k secret hs),
    fun k secret r hs => h.staged k secret r (hold k secret hs), fun w hw => ?_, h.marked⟩
  obtain ⟨hmem, hkey, hours, holder, hsame⟩ := h.writes w hw
  exact ⟨hmem, hkey, hours, holder, fun old current hf hs => hsame old current hf (hold _ _ hs)⟩

theorem Shelf.Sound.drop (h : s.Sound l d runs) (index : ℕ) :
    ({ s with writes := s.writes.eraseIdx index } : Shelf).Sound l d runs := by
  refine ⟨h.fresh, h.staged, fun w hw => ?_, h.marked⟩
  obtain ⟨hmem, hkey, hours, holder, hsame⟩ := h.writes w (mem_of_mem_eraseIdx hw)
  exact ⟨hmem, hkey, hours, holder, hsame⟩

/-- **One step** of runs whose names are apart keeps what holds at any time, and leaves
alone what runs of other tenants staged. -/
theorem Shelf.Sound.step (hapart : ∀ r ∈ runs, ∀ r' ∈ runs, r.tenant ≠ r'.tenant → r.Apart d r')
    (htenant : ∀ r ∈ runs, r.tenant ≠ "") (h : s.Sound l d runs) (hm : m.run ∈ runs)
    (hstep : stageStep l d s m = some s') : s'.Sound l d runs ∧ LeavesAlone s s' m.run := by
  cases m with
  | get r what =>
    rw [stageStep] at hstep
    split_ifs at hstep
    split at hstep
    next key _ hkey _ =>
      cases hstep
      refine ⟨h.get hm ⟨what, hkey⟩, fun key' secret maker hsecret _ _ => ?_⟩
      rw [get_secrets]
      exact hsecret
    · cases hstep
      exact ⟨h, fun _ _ _ hsecret _ _ => hsecret⟩
    · cases hstep
  | put r index _ =>
    rw [stageStep] at hstep
    split at hstep
    next w hget =>
      split_ifs at hstep with hrun hreached
      all_goals
        cases hstep
        obtain rfl := not_not.1 hrun
      · have hready : w.Ready l d runs { s with writes := s.writes.eraseIdx index } := by
          obtain ⟨hmem, hkey, hours, holder, hsame⟩ := h.writes w (mem_of_getElem? hget)
          exact ⟨hmem, hkey, hours, holder, hsame⟩
        exact (h.drop index).put hready
      · exact ⟨h.drop index, fun _ _ _ hsecret _ _ => hsecret⟩
    · cases hstep
  | mark r key =>
    rw [stageStep] at hstep
    split at hstep
    · split_ifs at hstep with hmark
      cases hstep
      rw [Bool.and_eq_true, decide_eq_true_eq] at hmark
      refine ⟨⟨h.fresh, h.staged, fun w hw => ?_, fun e he => ?_⟩, fun _ _ _ hs _ _ => hs⟩
      · obtain ⟨hmem, hkey, hours, holder, hsame⟩ := h.writes w hw
        exact ⟨hmem, hkey, hours, holder, hsame⟩
      · rcases mem_append.1 he with hold | hnew
        · exact h.marked e hold
        · obtain rfl := mem_singleton.1 hnew
          exact hmark.1
    · cases hstep
  | delete r key =>
    rw [stageStep] at hstep
    split_ifs at hstep with hmay
    cases hstep
    refine ⟨h.delete key, fun key' secret maker hsecret hmaker hother => ?_⟩
    obtain ⟨hmem, -, hkey⟩ := h.staged key' secret maker hsecret hmaker
    have hne : key' ≠ key := by
      rintro rfl
      rcases hmay with hdiscard | hmarked
      · exact (hapart r hm maker hmem (Ne.symm hother)).not_discarded (Ne.symm hother) hkey hdiscard
      · exact home_ne (htenant r hm) (Ne.symm hother) hkey (h.marked _ hmarked)
    simpa [hne] using hsecret

end machine

/-- **No step of a run overwrites or deletes a Secret that a run of another tenant staged**,
in any interleaving of the steps of runs of tenants whose names are not nested, when the
digests of names that are cut differ. -/
theorem others_left_alone {l : Layout} {d : Digest} {runs : List Run} {start s s' : Shelf}
    {ms : List StageMove} {m : StageMove}
    (hapart : ∀ r ∈ runs, ∀ r' ∈ runs, r.tenant ≠ r'.tenant → r.Apart d r')
    (htenant : ∀ r ∈ runs, r.tenant ≠ "") (hstart : start.Unstaged)
    (hms : ∀ m ∈ ms, m.run ∈ runs) (hm : m.run ∈ runs)
    (hr : Runs.run (stageStep l d) start ms = some s) (hstep : stageStep l d s m = some s') :
    LeavesAlone s s' m.run := by
  have hmeets : Runs.Meets (stageStep l d) (fun _ m => m.run ∈ runs) start ms :=
    Runs.meets_of_forall hms start
  have h : s.Sound l d runs :=
    Runs.invariant (fun _ _ _ hs hm hstep => (hs.step hapart htenant hm hstep).1) hstart.sound
      hmeets hr
  exact (h.step hapart htenant hm hstep).2

/-! ### Runs on two exports -/

/-- A digest that is the same for all names. -/
def sameDigest : Digest where
  hex := fun _ => String.ofList (replicate 8 '0')
  length_hex := fun _ => by rw [String.length_ofList, length_replicate]
  digits := fun _ c hc => by
    rw [String.toList_ofList] at hc
    rw [eq_of_mem_replicate hc]
    decide

/-- A layout with the kernel's usual namespaces. -/
def plainLayout : Layout :=
  ⟨"kernel-authentication", "kernel-data", by decide +kernel, by decide +kernel⟩

/-- No Secrets. -/
def noSecrets : Shelf := ⟨fun _ => none, 0, [], []⟩

theorem unstaged_noSecrets : noSecrets.Unstaged :=
  ⟨fun _ _ h => absurd h (by simp [noSecrets]), fun _ _ h => absurd h (by simp [noSecrets]), rfl, rfl⟩

/-- The keys of an object store. -/
def storeKeys : SecretData := [("endpoint", "s3"), ("accessKey", "key"), ("secretKey", "word")]

/-- A run that reads the keys and stages them. -/
def stages (r : Run) : List StageMove :=
  [.get r (.keys "system-postgresql" (some storeKeys) false none), .put r 0 true]

/-- An export of tenant `a`. -/
def nightlyOfA : Run := ⟨.tenantExport, "tenant-a", "nightly", "1"⟩

/-- An export of tenant `b` with the same name. -/
def nightlyOfB : Run := ⟨.tenantExport, "tenant-b", "nightly", "2"⟩

/-- The export of tenant `b` removes its keys. -/
def cleanUpOfB : StageMove := .delete nightlyOfB ("system-postgresql", "tx-b-nightly-run-creds")

theorem nightly_left_alone : ∃ s s', Runs.run (stageStep plainLayout sameDigest) noSecrets
        (stages nightlyOfA ++ stages nightlyOfB) = some s ∧
      stageStep plainLayout sameDigest s cleanUpOfB = some s' ∧ LeavesAlone s s' cleanUpOfB.run := by
  have hr : Runs.run (stageStep plainLayout sameDigest) noSecrets
      (stages nightlyOfA ++ stages nightlyOfB) = some _ :=
    (some_get (by decide +kernel)).symm
  have hapart : ∀ r ∈ [nightlyOfA, nightlyOfB], ∀ r' ∈ [nightlyOfA, nightlyOfB],
      r.tenant ≠ r'.tenant → r.Apart sameDigest r' := by decide +kernel
  refine ⟨_, _, hr, (some_get (by decide +kernel)).symm, ?_⟩
  exact others_left_alone hapart (by decide +kernel) unstaged_noSecrets (by decide +kernel)
    (by decide +kernel) hr (some_get _).symm

/-- Export `b-c` of tenant `a`. -/
def exportOfA : Run := ⟨.tenantExport, "tenant-a", "b-c", "1"⟩

/-- Export `c` of tenant `a-b`. -/
def exportOfAB : Run := ⟨.tenantExport, "tenant-a-b", "c", "2"⟩

/-- **The clean-up of one tenant's export deletes the keys another tenant's export staged.** -/
theorem other_runs_secret_deleted :
    (Api.validTenantName exportOfA.tenant = true ∧ Api.validTenantName exportOfAB.tenant = true ∧
      Api.dnsLabel exportOfA.name = true ∧ Api.dnsLabel exportOfAB.name = true ∧
      exportOfA.tenant ≠ exportOfAB.tenant) ∧
    ∃ s s', Runs.run (stageStep plainLayout sameDigest) noSecrets (stages exportOfA) = some s ∧
      stageStep plainLayout sameDigest s
        (.delete exportOfAB ("system-postgresql", "tx-a-b-c-run-creds")) = some s' ∧
      ¬LeavesAlone s s' exportOfAB := by
  refine ⟨by decide +kernel, _, _, (some_get (by decide +kernel)).symm,
    (some_get (by decide +kernel)).symm, fun h => ?_⟩
  have hkept := h ("system-postgresql", "tx-a-b-c-run-creds")
    ⟨"a", "b-c", storeKeys, none, 0, some exportOfA⟩ exportOfA (by decide +kernel) rfl
    (by decide +kernel)
  cases hkept

end Gentian.Export
