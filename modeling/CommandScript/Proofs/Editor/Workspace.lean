import CommandScript.Proofs.Editor.Lookup

/-! # Reading in the workspace

At the first lookup the scripts of the workspace folder are read in, one after another. A script
that is indexed already is passed over, and so is a directory or a text that does not parse. Only a
file that is no UTF-8 text stops the reading, and with it the lookup.
-/

namespace CommandScript

/-! ## Paths and URIs -/

namespace Uri

theorem hexValue?_hexDigit : ∀ n < 16, Text.hexValue? (hexDigit n) = some n := by decide

theorem plainBytes : ∀ n < 128, isPlainByte (UInt8.ofNat n) = true →
    Char.ofNat n ≠ '%' ∧ (Char.ofNat n).toString.toUTF8.toList = [UInt8.ofNat n] := by
  decide +kernel

theorem percentBytes_plain {b : UInt8} (h : isPlainByte b = true) (rest : List Char) :
    percentBytes (Char.ofNat b.toNat :: rest) = b :: percentBytes rest := by
  have hb : b.toNat < 128 := by
    simp only [isPlainByte, Bool.and_eq_true, decide_eq_true_eq] at h
    exact h.1
  obtain ⟨hn, hu⟩ := plainBytes b.toNat hb (by rwa [UInt8.ofNat_toNat])
  rw [percentBytes, hu, UInt8.ofNat_toNat]
  · rfl
  · rintro a c rest' hc
    exact absurd hc hn

theorem percentBytes_escaped (b : UInt8) (rest : List Char) :
    percentBytes ('%' :: hexDigit (b.toNat / 16) :: hexDigit (b.toNat % 16) :: rest) =
      b :: percentBytes rest := by
  have hb := b.toNat_lt
  have hn : b.toNat / 16 * 16 + b.toNat % 16 = b.toNat := by omega
  rw [percentBytes, hexValue?_hexDigit _ (by omega), hexValue?_hexDigit _ (by omega)]
  simp only [hn, UInt8.ofNat_toNat]

theorem percentBytes_encoded (bs : List UInt8) :
    percentBytes (bs.flatMap fun b =>
      if isPlainByte b then [Char.ofNat b.toNat]
      else ['%', hexDigit (b.toNat / 16), hexDigit (b.toNat % 16)]) = bs := by
  induction bs with
  | nil => rfl
  | cons b bs ih =>
    rw [List.flatMap_cons]
    split
    · next h => rw [List.singleton_append, percentBytes_plain h, ih]
    · exact (percentBytes_escaped b _).trans (congrArg (b :: ·) ih)

theorem toList_loop (bs : ByteArray) (i : Nat) (r : List UInt8) :
    ByteArray.toList.loop bs i r = r.reverse ++ bs.data.toList.drop i := by
  fun_induction ByteArray.toList.loop bs i r with
  | case1 i r h ih =>
    have hl : i < bs.data.toList.length := by simpa using h
    have hb : bs.get! i = bs.data.toList[i] := by
      change bs.data[i]! = _
      rw [getElem!_pos bs.data i h, Array.getElem_toList]
    rw [ih, List.reverse_cons, List.append_assoc, List.drop_eq_getElem_cons hl, hb]
    rfl
  | case2 i r h => rw [List.drop_eq_nil_of_le (by simpa using h), List.append_nil]

theorem percentEncode_injective {a b : String} (h : percentEncode a = percentEncode b) :
    a = b := by
  have hl : a.toUTF8.toList = b.toUTF8.toList := by
    have hc := congrArg (fun s => percentBytes s.toList) h
    simpa only [percentEncode, String.toList_ofList, percentBytes_encoded] using hc
  have hd : a.toUTF8.data.toList = b.toUTF8.data.toList :=
    (toList_loop a.toUTF8 0 []).symm.trans (hl.trans (toList_loop b.toUTF8 0 []))
  exact String.toByteArray_inj.mp (ByteArray.ext (Array.toList_inj.mp hd))

end Uri

theorem Workspace.uriOf_injective (w : Workspace) {a b : String} (h : w.uriOf a = w.uriOf b) :
    a = b :=
  Uri.percentEncode_injective (String.append_right_inj _ |>.mp h)

/-! ## Entries -/

/-- The symbols of an entry: those of its text, if it is a file and a text that parses. -/
def Entry.symbols? (uri : String) : Entry → Option (List Symbol)
  | .directory => none
  | .file bytes => (Text.decodeFile? bytes).bind (Symbol.ofText? uri)

/-- The symbols of the first entry at a URI that has any. -/
def Workspace.symbolsAt? (w : Workspace) (entries : List (String × Entry)) (u : String) :
    Option (List Symbol) :=
  entries.findSome? fun e => if w.uriOf e.1 = u then e.2.symbols? (w.uriOf e.1) else none

/-- The stack is deep enough to parse a text and to list its symbols. -/
def Symbol.Shallow (uri text : String) : Prop :=
  parse (some uri) text ≠ .error .overflow ∧
    ∀ p, parse (some uri) text = .ok p →
      ∀ x e line, Stmt.assign x e line ∈ p → e.height ≤ stackLimit

/-- The entry can be read in: it is a directory, or a text that the stack is deep enough for. -/
def Entry.Readable (uri : String) : Entry → Prop
  | .directory => True
  | .file bytes => ∃ text, Text.decodeFile? bytes = some text ∧ Symbol.Shallow uri text

namespace Index

variable {index : Index} {uri text word : String} {w : Workspace}

theorem update_shallow (h : Symbol.Shallow uri text) (index : Index) :
    ∃ ds, update uri text index = .ok ds (lastState (update uri text index)) := by
  rcases update_cases uri text index with ⟨symbols, -, hu⟩ | ⟨d, -, hu⟩ | ⟨halt, hn, hu⟩
  · exact ⟨_, by rw [hu]; rfl⟩
  · exact ⟨_, by rw [hu]; rfl⟩
  · rcases Diagnostic.check_cases (some uri) text with ⟨p, hp, -⟩ | ⟨f, d, -, hc⟩ | ⟨ho, -⟩
    · obtain ⟨symbols, hs, -⟩ := Symbol.exists_ofText? hp (h.2 p hp)
      exact absurd ⟨p, hp, hs⟩ (hn symbols)
    · rw [update, hc] at hu
      cases hu
    · exact absurd ho h.1

theorem readEntry_file (uri : String) (bytes : ByteArray) (index : Index) :
    readEntry uri (.file bytes) index =
      if (index.symbols.get? uri).isSome then .ok () index
      else match Text.decodeFile? bytes with
        | none => .error .undecodable index
        | some text => (update uri text >>= fun _ => pure ()) index := by
  rw [readEntry, bind_ok (get_apply index)]
  split
  · rfl
  · cases Text.decodeFile? bytes <;> rfl

theorem readEntry_get? {entry : Entry}
    (h : index.symbols.get? uri = none → entry.Readable uri) :
    ∃ index', readEntry uri entry index = .ok () index' ∧ ∀ u, index'.symbols.get? u =
      (index.symbols.get? u).or (if uri = u then entry.symbols? uri else none) := by
  cases entry with
  | directory => exact ⟨index, rfl, fun u => by simp [Entry.symbols?]⟩
  | file bytes =>
    rw [readEntry_file]
    cases hg : index.symbols.get? uri with
    | some symbols =>
      refine ⟨index, rfl, fun u => ?_⟩
      split
      · next hu =>
        rw [← hu, hg]
        rfl
      · rw [Option.or_none]
    | none =>
      obtain ⟨text, ht, hs⟩ := h hg
      obtain ⟨ds, hu⟩ := update_shallow hs index
      refine ⟨lastState (update uri text index), ?_, fun u => ?_⟩
      · rw [ht]
        exact bind_ok hu
      · rw [lastState_update, Entry.symbols?, ht, Option.bind_some]
        cases Symbol.ofText? uri text with
        | none => simp
        | some symbols =>
          change (index.symbols.put uri symbols).get? u = _
          by_cases hu : u = uri
          · rw [hu, Table.get?_put_self, hg, if_pos rfl, Option.none_or]
          · rw [Table.get?_put_of_ne _ hu, if_neg (Ne.symm hu), Option.or_none]

/-- Reading in entries adds the symbols of the first one at each URI that has any. -/
theorem readEntries_get? (w : Workspace) {entries : List (String × Entry)}
    (h : ∀ e ∈ entries, index.symbols.get? (w.uriOf e.1) = none → e.2.Readable (w.uriOf e.1)) :
    ∃ index', readEntries w entries index = .ok () index' ∧ ∀ u, index'.symbols.get? u =
      (index.symbols.get? u).or (w.symbolsAt? entries u) := by
  induction entries generalizing index with
  | nil => exact ⟨index, rfl, fun u => (Option.or_none).symm⟩
  | cons e entries ih =>
    rw [List.forall_mem_cons] at h
    obtain ⟨index₁, hr, hg⟩ := readEntry_get? h.1
    obtain ⟨index₂, hr₂, hg₂⟩ := @ih index₁ fun e' he' hn => by
      -- what is not indexed after an entry was not indexed before it
      rw [hg] at hn
      exact h.2 e' he' (Option.or_eq_none_iff.mp hn).1
    refine ⟨index₂, (bind_ok hr).trans hr₂, fun u => ?_⟩
    rw [hg₂, hg, Option.or_assoc, Workspace.symbolsAt?, Workspace.symbolsAt?, List.findSome?_cons]
    cases (if w.uriOf e.1 = u then e.2.symbols? (w.uriOf e.1) else none) <;> rfl

end Index

/-! ## The workspace -/

namespace Workspace

variable {w : Workspace} {entries : List (String × Entry)} {path u : String} {entry : Entry}

theorem symbolsAt?_eq_none (h : ∀ e ∈ entries, w.uriOf e.1 ≠ u) :
    w.symbolsAt? entries u = none := by
  rw [symbolsAt?, List.findSome?_eq_none_iff]
  exact fun e he => if_neg (h e he)

theorem symbolsAt?_of_mem (hd : (entries.map Prod.fst).Nodup) (hm : (path, entry) ∈ entries) :
    w.symbolsAt? entries (w.uriOf path) = entry.symbols? (w.uriOf path) := by
  induction entries with
  | nil => cases hm
  | cons e entries ih =>
    rw [List.map_cons, List.nodup_cons] at hd
    rw [symbolsAt?, List.findSome?_cons]
    rcases List.mem_cons.mp hm with rfl | hm
    · rw [if_pos rfl]
      cases hs : entry.symbols? (w.uriOf path) with
      | some symbols => rfl
      | none =>
        apply symbolsAt?_eq_none
        intro e he hu
        exact hd.1 (List.mem_map.mpr ⟨e, he, w.uriOf_injective hu⟩)
    · have hn : w.uriOf e.1 ≠ w.uriOf path := by
        intro hu
        exact hd.1 (List.mem_map.mpr ⟨_, hm, (w.uriOf_injective hu).symm⟩)
      rw [if_neg hn]
      exact ih hd.2 hm

end Workspace

namespace Index

variable {index : Index}

/-- The first lookup reads in the scripts of the workspace and then answers. -/
theorem lookup_reads (hi : index.indexed = false) (hr : index.workspace.rooted = true)
    (hf : ∀ e ∈ index.workspace.folder.scripts,
      index.symbols.get? (index.workspace.uriOf e.1) = none →
        e.2.Readable (index.workspace.uriOf e.1)) (word : String) :
    ∃ found index', lookup word index = .ok found index' ∧ index'.indexed = true ∧
      ∀ u, index'.symbols.get? u = (index.symbols.get? u).or
        (index.workspace.symbolsAt? index.workspace.folder.scripts u) := by
  obtain ⟨index₁, hx, hg⟩ := readEntries_get? index.workspace hf
  have hw : readWorkspace index = .ok () { index₁ with indexed := true } := by
    rw [readWorkspace, bind_ok (get_apply index), if_pos hr, bind_ok hx]
    rfl
  refine ⟨(index₁.names.get? word).bind List.head?, { index₁ with indexed := true }, ?_, rfl, hg⟩
  rw [lookup, bind_ok (get_apply index), hi]
  exact bind_ok hw

/-- Reading in the workspace survives every file that is UTF-8 text. The first lookup is answered
and the workspace is read in: every script that parses has its symbols, unless its URI was indexed.
What does not parse and what is no file is passed over, and what was indexed stays as it was. -/
theorem workspace_indexed (hi : index.indexed = false) (hr : index.workspace.rooted = true)
    (hd : (index.workspace.folder.entries.map Prod.fst).Nodup)
    (hf : ∀ e ∈ index.workspace.folder.scripts,
      index.symbols.get? (index.workspace.uriOf e.1) = none →
        e.2.Readable (index.workspace.uriOf e.1)) (word : String) :
    ∃ found index', lookup word index = .ok found index' ∧ index'.indexed = true ∧
      (∀ path bytes text p, (path, .file bytes) ∈ index.workspace.folder.scripts →
        index.symbols.get? (index.workspace.uriOf path) = none →
        Text.decodeFile? bytes = some text →
        parse (some (index.workspace.uriOf path)) text = .ok p →
        ∃ symbols, Symbol.collect (index.workspace.uriOf path) p = .ok symbols ∧
          index'.symbols.get? (index.workspace.uriOf path) = some symbols) ∧
      (∀ path bytes text, (path, .file bytes) ∈ index.workspace.folder.scripts →
        index.symbols.get? (index.workspace.uriOf path) = none →
        Text.decodeFile? bytes = some text →
        (∀ p, parse (some (index.workspace.uriOf path)) text ≠ .ok p) →
        index'.symbols.get? (index.workspace.uriOf path) = none) ∧
      (∀ path, (path, .directory) ∈ index.workspace.folder.scripts →
        index.symbols.get? (index.workspace.uriOf path) = none →
        index'.symbols.get? (index.workspace.uriOf path) = none) ∧
      (∀ uri symbols, index.symbols.get? uri = some symbols →
        index'.symbols.get? uri = some symbols) ∧
      ∀ uri, (∀ e ∈ index.workspace.folder.scripts, index.workspace.uriOf e.1 ≠ uri) →
        index'.symbols.get? uri = index.symbols.get? uri := by
  obtain ⟨found, index', hl, hi', hg⟩ := lookup_reads hi hr hf word
  have hs : (index.workspace.folder.scripts.map Prod.fst).Nodup :=
    hd.sublist (List.filter_sublist.map _)
  -- an entry that was not indexed has afterwards just the symbols of its own
  have entry : ∀ {path e}, (path, e) ∈ index.workspace.folder.scripts →
      index.symbols.get? (index.workspace.uriOf path) = none →
      index'.symbols.get? (index.workspace.uriOf path) =
        e.symbols? (index.workspace.uriOf path) := by
    intro path e hm hn
    rw [hg, hn, Workspace.symbolsAt?_of_mem hs hm, Option.none_or]
  refine ⟨found, index', hl, hi', ?_, ?_, ?_, ?_, ?_⟩
  · intro path bytes text p hm hn ht hp
    obtain ⟨text', ht', -, hh⟩ := hf _ hm hn
    obtain rfl : text = text' := Option.some.inj (ht.symm.trans ht')
    obtain ⟨symbols, hc, ho⟩ := Symbol.exists_ofText? hp (hh p hp)
    exact ⟨symbols, hc, by rw [entry hm hn, Entry.symbols?, ht, Option.bind_some, ho]⟩
  · intro path bytes text hm hn ht hp
    rw [entry hm hn, Entry.symbols?, ht, Option.bind_some, Symbol.ofText?_unparsed hp]
  · intro path hm hn
    rw [entry hm hn, Entry.symbols?]
  · intro uri symbols h
    rw [hg, h]
    rfl
  · intro uri h
    rw [hg, Workspace.symbolsAt?_eq_none h, Option.or_none]

/-- A folder with a text that does not parse, one that does, a directory, and a file that is no
text but is open in the editor. -/
def mixedIndex : Index where
  workspace :=
    { uri := "file:///w"
      folder := ⟨[("bad.ase", .file "x = (".toUTF8), ("good.ase", .file "x = 1".toUTF8),
        ("d.ase", .directory), ("open.ase", .file ⟨#[0xff]⟩)]⟩
      rooted := true }
  symbols := ⟨[("file:///w/open.ase", [])]⟩

theorem scripts_mixedIndex :
    mixedIndex.workspace.folder.scripts = mixedIndex.workspace.folder.entries :=
  List.filter_eq_self.mpr (by decide +kernel)

theorem workspace_indexed_mixed :
    ∃ found index', lookup "x" mixedIndex = .ok found index' ∧ index'.indexed = true ∧
      index'.symbols.get? "file:///w/good.ase" =
        some [.ofBinding "file:///w/good.ase" "x" "1" 1] ∧
      index'.symbols.get? "file:///w/bad.ase" = none ∧
      index'.symbols.get? "file:///w/open.ase" = some [] := by
  have ugood : mixedIndex.workspace.uriOf "good.ase" = "file:///w/good.ase" := by decide +kernel
  have ubad : mixedIndex.workspace.uriOf "bad.ase" = "file:///w/bad.ase" := by decide +kernel
  have tgood : Text.decodeFile? "x = 1".toUTF8 = some "x = 1" := by decide +kernel
  have tbad : Text.decodeFile? "x = (".toUTF8 = some "x = (" := by decide +kernel
  have pgood : ∀ uri, parse (some uri) "x = 1" = .ok [.assign "x" (.int 1) 1] := fun _ => rfl
  have pbad : ∀ uri, ∃ f, parse (some uri) "x = (" = .error (.fault f) := fun _ => ⟨_, rfl⟩
  have hf : ∀ e ∈ mixedIndex.workspace.folder.scripts,
      mixedIndex.symbols.get? (mixedIndex.workspace.uriOf e.1) = none →
        e.2.Readable (mixedIndex.workspace.uriOf e.1) := by
    intro e he hn
    rw [scripts_mixedIndex] at he
    simp only [mixedIndex, List.mem_cons, List.not_mem_nil, or_false] at he
    rcases he with rfl | rfl | rfl | rfl
    · obtain ⟨f, hp⟩ := pbad (mixedIndex.workspace.uriOf "bad.ase")
      refine ⟨_, tbad, by rw [hp]; simp, ?_⟩
      rw [hp]
      rintro _ ⟨⟩
    · refine ⟨_, tgood, by rw [pgood]; simp, ?_⟩
      rw [pgood]
      rintro _ ⟨⟩ x e line hm
      cases List.mem_singleton.mp hm
      decide
    · trivial
    · exact absurd hn (by decide +kernel)
  have mem : ∀ {path entry}, (path, entry) ∈ mixedIndex.workspace.folder.entries →
      (path, entry) ∈ mixedIndex.workspace.folder.scripts := by
    intro path entry h
    rwa [scripts_mixedIndex]
  obtain ⟨found, index', hl, hi, hp, hn, -, hk, -⟩ :=
    @workspace_indexed mixedIndex rfl rfl (by decide) hf "x"
  refine ⟨found, index', hl, hi, ?_, ?_, hk _ _ rfl⟩
  · obtain ⟨symbols, hc, hg⟩ := hp "good.ase" _ _ _ (mem (by simp [mixedIndex]))
      (by decide +kernel) tgood (pgood _)
    rw [ugood] at hc hg
    have hs : Symbol.collect "file:///w/good.ase" [.assign "x" (.int 1) 1] =
        .ok [.ofBinding "file:///w/good.ase" "x" "1" 1] := by decide +kernel
    rw [hg, Except.ok.inj (hc.symm.trans hs)]
  · obtain ⟨f, hp⟩ := pbad (mixedIndex.workspace.uriOf "bad.ase")
    have hg := hn "bad.ase" _ _ (mem (by simp [mixedIndex])) (by decide +kernel) tbad
      (by rw [hp]; simp)
    rwa [ubad] at hg

/-- A folder with a file that is no text. -/
def garbledIndex : Index where
  workspace :=
    { uri := "file:///w", folder := ⟨[("bad.ase", .file ⟨#[0xff]⟩)]⟩, rooted := true }

/-- A file that is no text makes the lookup fail, and the workspace stays unread. -/
theorem garbled_not_indexed :
    lookup "x" garbledIndex = .error .undecodable garbledIndex ∧
      garbledIndex.indexed = false := by
  refine ⟨?_, rfl⟩
  have hs : garbledIndex.workspace.folder.scripts = garbledIndex.workspace.folder.entries :=
    List.filter_eq_self.mpr (by decide +kernel)
  have hd : Text.decodeFile? ⟨#[0xff]⟩ = none := by decide +kernel
  have hr : readEntries garbledIndex.workspace garbledIndex.workspace.folder.scripts garbledIndex =
      .error .undecodable garbledIndex := by
    rw [hs]
    refine bind_error ?_
    rw [readEntry_file, hd]
    rfl
  have hw : readWorkspace garbledIndex = .error .undecodable garbledIndex := by
    rw [readWorkspace, bind_ok (get_apply garbledIndex)]
    exact bind_error hr
  rw [lookup, bind_ok (get_apply garbledIndex)]
  exact bind_error hw

end Index

end CommandScript
