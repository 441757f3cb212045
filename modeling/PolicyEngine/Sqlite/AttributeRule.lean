import PolicyEngine.Sqlite.Accepted

/-!
# The integrity check and the attribute rule

WriteData keeps a path and its strict prefixes apart: an entity never holds both.
The check compares the ancestor rows with those the attributes must have, but not
with the attributes themselves, so it does not imply the rule. It does once no
ancestor row names a stored attribute, and only then.
-/

open PolicyEngine.Lib

namespace PolicyEngine.Sqlite

/-- The attribute a row stands for. -/
def AttributeRow.decode (r : AttributeRow) : Result Attribute :=
  decodeDurableAttribute r.attributeKey r.path r.value r.entity

/-- No namespace and entity holds both a path and one of its strict prefixes. -/
def PrefixFree (db : Database) : Prop :=
  ∀ r ∈ db.attributes, ∀ r' ∈ db.attributes, ∀ a a', r.decode = .ok a → r'.decode = .ok a' →
    r.namespace_ = r'.namespace_ → a.entity = a'.entity → a.path <+: a'.path → a.path = a'.path

/-- No ancestor row names the key of an attribute stored in its namespace. -/
def NoStoredAncestor (db : Database) : Prop :=
  ∀ x ∈ db.attributeAncestors, ∀ r ∈ db.attributes, r.namespace_ = x.namespace_ → r.attributeKey ≠ x.ancestorPath

instance (db : Database) : Decidable (NoStoredAncestor db) :=
  inferInstanceAs (Decidable (∀ x ∈ db.attributeAncestors.rows, ∀ r ∈ db.attributes.rows,
    r.namespace_ = x.namespace_ → r.attributeKey ≠ x.ancestorPath))

theorem AttributeRow.decode_eq_ok {r : AttributeRow} {a : Attribute} : r.decode = .ok a ↔ r.Holds a :=
  decodeDurableAttribute_eq_ok

/-- A strict prefix of a stored attribute is an encodable key of its own. -/
theorem AttributeRow.Holds.encodable_prefix {r : AttributeRow} {a : Attribute} (h : r.Holds a) {path : Path}
    (hne : path ≠ []) (hpre : path <+: a.path) : EncodableKey ⟨a.entity, path⟩ := by
  have hk := h.encodableKey.take (List.length_pos_of_ne_nil hne)
  change EncodableKey ⟨a.entity, a.path.take path.length⟩ at hk
  rwa [← List.prefix_iff_eq_take.1 hpre] at hk

/-- Accepted tables keep the attribute rule exactly when no ancestor row names a stored attribute. -/
theorem validateFullAttributes_prefixFree {db : Database} (h : validateFullAttributes db = .ok ()) :
    PrefixFree db ↔ NoStoredAncestor db := by
  have hok := validateFullAttributes_eq_ok.1 h
  constructor
  · intro hfree x hx r hr hns heq
    obtain ⟨r', hr', a', ha', b, hb, rfl⟩ := (hok.ancestors x).1 hx
    obtain ⟨-, ⟨a, ha⟩, -⟩ := hok.rows r hr
    obtain ⟨path, hne, hstrict, hpre, rfl⟩ := mem_prefixBytes.1 hb
    -- the row of `r` is the strict prefix that the ancestor row names
    have hkey : a.key = ⟨a'.entity, path⟩ :=
      attributeKeyBytes_inj ha.encodableKey (ha'.encodable_prefix hne hpre) (ha.key.symm.trans heq)
    obtain ⟨hentity, hpath⟩ : a.entity = a'.entity ∧ a.path = path := by
      simpa [Attribute.key] using hkey
    refine hstrict ?_
    rw [← hpath]
    exact hfree r hr r' hr' a a' (AttributeRow.decode_eq_ok.2 ha) (AttributeRow.decode_eq_ok.2 ha') hns hentity
      (hpath ▸ hpre)
  · intro hnone r hr r' hr' a a' ha ha' hns hentity hpre
    have ha := AttributeRow.decode_eq_ok.1 ha
    have ha' := AttributeRow.decode_eq_ok.1 ha'
    by_contra hstrict
    have hne : a.path ≠ [] := (validateAttributePath_eq_ok.1 ha.encodable.1).1
    -- the longer path has an ancestor row for the shorter one
    have hb : attributeKeyBytes a.key ∈ prefixBytes a'.key :=
      mem_prefixBytes.2 ⟨a.path, hne, hstrict, hpre, by rw [Attribute.key, Attribute.key, hentity]⟩
    have hx := (hok.ancestors ⟨r'.namespace_, r'.attributeKey, _⟩).2 ⟨r', hr', a', ha', _, hb, rfl⟩
    exact hnone _ hx r hr hns ha.key

/-! ## Two attributes of one entity -/

def sampleEntity : EntityRef := ⟨ascii "document", ascii "1"⟩

/-- The row of a null attribute in namespace `n`. -/
def sampleRow (path : Path) : AttributeRow :=
  ⟨ascii "n", attributeKeyBytes ⟨sampleEntity, path⟩, sampleEntity, attributePathBytes path,
    [codecVersion, attributeValueNull], none⟩

/-- A namespace with two null attributes and their ancestor rows. -/
def sampleAttributes (p q : Path) : Database :=
  let db := Database.migrated []
  { db with
    namespaceHeads := db.namespaceHeads.set (.initial (ascii "n"))
    attributes := (db.attributes.set (sampleRow p)).set (sampleRow q)
    attributeAncestors := [p, q].foldl (fun t path => (prefixBytes ⟨sampleEntity, path⟩).foldl
      (fun t b => t.set ⟨ascii "n", attributeKeyBytes ⟨sampleEntity, path⟩, b⟩) t) db.attributeAncestors }

/-- Two paths of which neither is a prefix of the other. -/
theorem prefixFree_siblings : validateFullAttributes (sampleAttributes [ascii "a", ascii "b"] [ascii "a", ascii "c"]) = .ok () ∧
    PrefixFree (sampleAttributes [ascii "a", ascii "b"] [ascii "a", ascii "c"]) :=
  have h : validateFullAttributes (sampleAttributes [ascii "a", ascii "b"] [ascii "a", ascii "c"]) = .ok () := by
    decide +kernel
  ⟨h, (validateFullAttributes_prefixFree h).2 (by decide +kernel)⟩

/-- A path stored beside its prefix passes the check. -/
theorem validateFullAttributes_accepts_prefix :
    validateFullAttributes (sampleAttributes [ascii "a"] [ascii "a", ascii "b"]) = .ok () ∧
      ¬ PrefixFree (sampleAttributes [ascii "a"] [ascii "a", ascii "b"]) := by
  refine ⟨by decide +kernel, fun hfree => ?_⟩
  have heq : ([ascii "a"] : Path) = [ascii "a", ascii "b"] :=
    hfree (sampleRow [ascii "a"]) (by decide +kernel) (sampleRow [ascii "a", ascii "b"]) (by decide +kernel)
      ⟨sampleEntity, [ascii "a"], newNullValue⟩ ⟨sampleEntity, [ascii "a", ascii "b"], newNullValue⟩
      (by decide +kernel) (by decide +kernel) rfl rfl ⟨[ascii "b"], rfl⟩
  exact absurd heq (by decide +kernel)

end PolicyEngine.Sqlite
