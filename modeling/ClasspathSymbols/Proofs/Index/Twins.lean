import ClasspathSymbols.Proofs.Index.Duplicates

/-! # Indexes that differ in flags

Two rows of declarations may differ in nothing but how some are flagged. The indexes that are made
of them hold the same names in all tables, and each answer that is no flag is the same. A
declaration that comes too late to win may be flagged in any way. -/
namespace ClasspathSymbols

/-- Two declarations of one type at one place. They are flagged alike, unless they are at a place
where it is the bytes that flag them. -/
structure SameButFlag (flagged : Place → Prop) (x y : ByteArray) (d e : Declaration) : Prop where
  binaryName : d.binaryName = e.binaryName
  place : d.place = e.place
  there : flagged d.place →
    d.deprecated = Catalog.deprecatedBytes x ∧ e.deprecated = Catalog.deprecatedBytes y
  elsewhere : ¬ flagged d.place → d.deprecated = e.deprecated

namespace Index

/-- The indexes hold the same names, and declarations that are the same but for flags. -/
structure Twins (R : Declaration → Declaration → Prop) (ix jx : Index) : Prop where
  types : ∀ n : String, Option.Rel R ix.types[n]? jx.types[n]?
  byBinaryName : ix.byBinaryName = jx.byBinaryName
  bySimpleName : ix.bySimpleName = jx.bySimpleName
  packages : ix.packages = jx.packages

variable {R : Declaration → Declaration → Prop} {ix jx : Index} {d e : Declaration}
  {ds es : List Declaration}

theorem isSome_of_rel {a b : Option Declaration} (h : Option.Rel R a b) : a.isSome = b.isSome := by
  cases h <;> rfl

theorem Twins.mem_iff (h : Twins R ix jx) (n : String) : n ∈ ix.types ↔ n ∈ jx.types := by
  rw [Std.TreeMap.mem_iff_isSome_getElem?, Std.TreeMap.mem_iff_isSome_getElem?,
    isSome_of_rel (h.types n)]

theorem Twins.typeCount_eq (h : Twins R ix jx) : ix.typeCount = jx.typeCount := by
  have hperm : ix.types.keys.Perm jx.types.keys := by
    rw [List.perm_ext_iff_of_nodup Std.TreeMap.nodup_keys Std.TreeMap.nodup_keys]
    intro n
    rw [Std.TreeMap.mem_keys, Std.TreeMap.mem_keys, h.mem_iff]
  rw [typeCount, typeCount, ← Std.TreeMap.length_keys, ← Std.TreeMap.length_keys]
  exact hperm.length_eq

variable {flagged : Place → Prop} {x y : ByteArray}

theorem rel_or {a b a' b' : Option Declaration} (h : Option.Rel R a b) (h' : Option.Rel R a' b') :
    Option.Rel R (a.or a') (b.or b') := by
  cases h with
  | none => exact h'
  | some hR => exact .some hR

theorem Twins.declaration? (h : Twins R ix jx) (n : String) :
    Option.Rel R (ix.declaration? n) (jx.declaration? n) := by
  rw [Index.declaration?, Index.declaration?, h.byBinaryName]
  refine rel_or (h.types n) ?_
  cases jx.byBinaryName[n]? with
  | none => exact .none
  | some m => exact h.types m

end Index

end ClasspathSymbols
