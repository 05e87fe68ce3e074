import ClasspathSymbols.Catalog
import ClasspathSymbols.Proofs.Files.Names
import ClasspathSymbols.Proofs.Files.Scan

/-! # Where the entries of a catalog come from

Each entry of an archive is the name of one of its members. Each entry of a directory spells the
way from there to a file that a walk found, and its path leads to that very file. -/
namespace ClasspathSymbols.Catalog

theorem ofMember_eq_some {archive : Path} {file : ByteArray} {m : Archive.Member} {c : ClassEntry}
    (h : ofMember archive file m = .ok (some c)) :
    c.entry = m.name ∧ BinaryName.ofEntry? c.entry = some c.binaryName := by
  rw [ofMember] at h
  split at h
  · cases h
  · split at h
    · cases h
    · rename_i hname
      split at h
      · cases h
      · cases h
        exact ⟨rfl, hname⟩

theorem ofFound_eq_some {fs : Files} {f : Found} {c : ClassEntry}
    (h : ofFound fs f = .ok (some c)) :
    c.entry = "/".intercalate f.below ∧ BinaryName.ofEntry? c.entry = some c.binaryName ∧
      ∃ content, fs.read f.path = .ok content ∧ c.deprecated = deprecatedBytes content := by
  unfold ofFound at h
  simp only at h
  split at h
  · cases h
  · rename_i hname
    split at h
    · cases h
    · rename_i content hread
      cases h
      exact ⟨rfl, hname, content, hread, rfl⟩

theorem mem_ofArchive {fs : Files} {archive : Path} {entries : List ClassEntry} {c : ClassEntry}
    (h : ofArchive fs archive = .ok entries) (hc : c ∈ entries) :
    ∃ file members, fs.map archive = .ok file ∧ Archive.members file = .ok members ∧
      ∃ m ∈ members, ofMember archive file m = .ok (some c) := by
  rw [ofArchive] at h
  obtain ⟨file, hfile, h⟩ := bind_eq_ok.1 h
  obtain ⟨members, hmembers, h⟩ := bind_eq_ok.1 h
  obtain ⟨row, hrow, h⟩ := bind_eq_ok.1 h
  obtain rfl := Except.ok.inj h
  obtain ⟨o, ho, rfl⟩ := List.mem_filterMap.1 hc
  exact ⟨file, members, mapError_eq_ok.1 hfile, mapError_eq_ok.1 hmembers, mem_of_mapM hrow ho⟩

theorem mem_ofDirectory {fs : Files} {root : Path} {entries : List ClassEntry} {c : ClassEntry}
    (h : ofDirectory fs root = .ok entries) (hc : c ∈ entries) :
    ∃ f ∈ fs.scan root isClassFile, ofFound fs f = .ok (some c) := by
  rw [ofDirectory] at h
  obtain ⟨row, hrow, h⟩ := bind_eq_ok.1 h
  obtain rfl := Except.ok.inj h
  obtain ⟨o, ho, rfl⟩ := List.mem_filterMap.1 hc
  exact mem_of_mapM hrow ho

theorem ofMember_of_name {archive : Path} {file : ByteArray} {m : Archive.Member} {b : String}
    {o : Option ClassEntry} (h : ofMember archive file m = .ok o)
    (hname : BinaryName.ofEntry? m.name = some b) : ∃ c, o = some c ∧ c.binaryName = b := by
  rw [ofMember] at h
  split at h
  · cases h
  · rw [hname] at h
    dsimp only at h
    split at h
    · cases h
    · exact ⟨_, (Except.ok.inj h).symm, rfl⟩

theorem ofFound_of_name {fs : Files} {f : Found} {b : String} {o : Option ClassEntry}
    (h : ofFound fs f = .ok o) (hname : BinaryName.ofEntry? ("/".intercalate f.below) = some b) :
    ∃ c, o = some c ∧ c.binaryName = b := by
  rw [ofFound] at h
  simp only [hname] at h
  split at h
  · cases h
  · exact ⟨_, (Except.ok.inj h).symm, rfl⟩

theorem exists_of_member {fs : Files} {archive : Path} {entries : List ClassEntry}
    {file : ByteArray} {members : List Archive.Member} (h : ofArchive fs archive = .ok entries)
    (hfile : fs.map archive = .ok file) (hmembers : Archive.members file = .ok members)
    {m : Archive.Member} (hm : m ∈ members) {b : String}
    (hname : BinaryName.ofEntry? m.name = some b) : ∃ c ∈ entries, c.binaryName = b := by
  rw [ofArchive] at h
  obtain ⟨file', hfile', h⟩ := bind_eq_ok.1 h
  rw [mapError_eq_ok, hfile] at hfile'
  obtain rfl := Except.ok.inj hfile'
  obtain ⟨members', hmembers', h⟩ := bind_eq_ok.1 h
  rw [mapError_eq_ok, hmembers] at hmembers'
  obtain rfl := Except.ok.inj hmembers'
  obtain ⟨row, hrow, h⟩ := bind_eq_ok.1 h
  obtain rfl := Except.ok.inj h
  obtain ⟨o, ho, hof⟩ := exists_of_mapM hrow hm
  obtain ⟨c, rfl, hc⟩ := ofMember_of_name hof hname
  exact ⟨c, List.mem_filterMap.2 ⟨_, ho, rfl⟩, hc⟩

theorem exists_of_found {fs : Files} {root : Path} {entries : List ClassEntry}
    (h : ofDirectory fs root = .ok entries) {f : Found} (hf : f ∈ fs.scan root isClassFile)
    {b : String} (hname : BinaryName.ofEntry? ("/".intercalate f.below) = some b) :
    ∃ c ∈ entries, c.binaryName = b := by
  rw [ofDirectory] at h
  obtain ⟨row, hrow, h⟩ := bind_eq_ok.1 h
  obtain rfl := Except.ok.inj h
  obtain ⟨o, ho, hof⟩ := exists_of_mapM hrow hf
  obtain ⟨c, rfl, hc⟩ := ofFound_of_name hof hname
  exact ⟨c, List.mem_filterMap.2 ⟨_, ho, rfl⟩, hc⟩

end ClasspathSymbols.Catalog
