import Colourway.Proofs.Resolve.Isolation
import Colourway.Proofs.Resolve.Stage

/-!
# Resolving entries that are written as trees

The values of the entries are texts of trees.  What resolving them as texts comes to is what the
trees mean.

* `Written` — entries with distinct paths whose values are texts of well-formed trees.
* `Sheet.ofStore` — their sheet, in front of what a scope of a store shows.
* `Resolver.evaluate_ok_means` — without missing references and cycles, every entry gets the value
  of its tree.
* `Resolver.unresolved_iff_illFounded` — otherwise the entries that missing references and cycles
  reach are reported, and no others.
-/

namespace Colourway

open Text Syntax Relation

/-- Entries that are written as trees, under distinct paths, for a resolver whose calls come to long
hex literals. -/
structure Written (r : Resolver) (entries : List Entry) (tree : Entry → Expr) : Prop where
  /-- Calls come to hex literals of six or eight digits. -/
  hex : ∀ {call h}, r.math.apply call = .ok h → IsHexLiteral h
  /-- No two entries have the same path. -/
  distinct : (entries.map Entry.flat).Nodup
  /-- The value of an entry is the text of its tree. -/
  printed : ∀ e ∈ entries, e.value = .text (tree e).print
  /-- Trees are well formed. -/
  wellFormed : ∀ e ∈ entries, (tree e).WellFormed IsPath

/-- The sheet of some entries, in front of what a scope of a store shows. -/
def Sheet.ofStore (r : Resolver) (s : Store) (scope : Scope) (entries : List Entry)
    (tree : Entry → Expr) : Sheet where
  math := r.math
  tree p := (entries.find? fun e => e.flat = p).map tree
  stored := s.view scope.visible

/-! ## The sheet of some entries -/

section Sheet

variable {r : Resolver} {s : Store} {scope : Scope} {entries : List Entry} {tree : Entry → Expr}

theorem Written.tree_flat (hw : Written r entries tree) {e : Entry} (he : e ∈ entries) :
    (Sheet.ofStore r s scope entries tree).tree e.flat = some (tree e) := by
  have hfind : entries.find? (fun e' => e'.flat = e.flat) = some e := by
    have hdistinct := hw.distinct
    clear hw
    induction entries with
    | nil => cases he
    | cons d rest ih =>
      rw [List.map_cons, List.nodup_cons] at hdistinct
      rcases List.mem_cons.1 he with rfl | he
      · exact List.find?_cons_of_pos (by simp)
      · rw [List.find?_cons_of_neg]
        · exact ih he hdistinct.2
        · intro hflat
          have hd : d.flat = e.flat := by simpa using hflat
          exact hdistinct.1 (by rw [hd]; exact List.mem_map_of_mem he)
  exact congrArg (Option.map tree) hfind

theorem Sheet.exists_entry {p : Text} {x : Expr}
    (h : (Sheet.ofStore r s scope entries tree).tree p = some x) :
    ∃ e ∈ entries, e.flat = p ∧ tree e = x := by
  obtain ⟨e, hfind, rfl⟩ := Option.map_eq_some_iff.1 h
  exact ⟨e, List.mem_of_find?_eq_some hfind, by simpa using List.find?_some hfind, rfl⟩

end Sheet

/-! ## The first view -/

namespace View

variable {r : Resolver} {v : View} {entries : List Entry}

theorem enterAll_of_not_mem {p : Text} (h : ∀ e ∈ entries, e.flat ≠ p) :
    v.enterAll r entries p = v p := by
  induction entries generalizing v with
  | nil => rfl
  | cons e rest ih =>
    have hput : (v.put e.flat (r.expand e.value)).enterAll r rest p = v.put e.flat _ p :=
      ih fun d hd => h d (List.mem_cons_of_mem _ hd)
    refine hput.trans ?_
    rw [put, if_neg fun hp => h e List.mem_cons_self hp.symm]

theorem enterAll_of_mem (distinct : (entries.map Entry.flat).Nodup) {e : Entry}
    (he : e ∈ entries) : v.enterAll r entries e.flat = some (r.expand e.value) := by
  induction entries generalizing v with
  | nil => cases he
  | cons d rest ih =>
    rw [List.map_cons, List.nodup_cons] at distinct
    rcases List.mem_cons.1 he with rfl | he
    · have hrest : (v.put e.flat (r.expand e.value)).enterAll r rest e.flat =
          v.put e.flat (r.expand e.value) e.flat := by
        refine enterAll_of_not_mem fun d hd hflat => distinct.1 ?_
        rw [← hflat]
        exact List.mem_map_of_mem hd
      exact hrest.trans (if_pos rfl)
    · exact ih (v := v.put d.flat (r.expand d.value)) distinct.2 he

end View

/-- Putting an entry into the store leaves the text of its tree as it is. -/
theorem Written.expand_value {r : Resolver} {entries : List Entry} {tree : Entry → Expr}
    (hw : Written r entries tree) {e : Entry} (he : e ∈ entries) :
    r.expand e.value = .text (tree e).print := by
  rw [hw.printed e he]
  exact congrArg Document.text (Expr.expandAliases_print (hw.wellFormed e he))

/-! ## What a run comes to -/

section Run

variable {r : Resolver} {s : Store} {scope : Scope} {entries : List Entry} {tree : Entry → Expr}

/-- The first view shows every entry as it was written. -/
theorem Written.shows (hw : Written r entries tree)
    (hs : (Sheet.ofStore r s scope entries tree).Sane r) :
    (Sheet.ofStore r s scope entries tree).Shows
      ((s.view scope.visible).enterAll r entries) := by
  refine ⟨?_, ?_⟩
  · intro p _ hlisted
    obtain ⟨x, hx⟩ := Option.ne_none_iff_exists'.1 hlisted
    obtain ⟨e, he, rfl, rfl⟩ := Sheet.exists_entry hx
    refine ⟨tree e, ?_, hs.stage hx⟩
    rw [View.enterAll_of_mem hw.distinct he, hw.expand_value he]
  · intro p _ hunlisted
    refine View.enterAll_of_not_mem ?_
    rintro e he rfl
    cases (hw.tree_flat he).symm.trans hunlisted

/-- What is asked of the unfolding of entries that are not ill-founded: no call fails, and no more
substitutions and calls are needed than the passes and the steps of each visit allow. -/
structure Feasible (r : Resolver) (S : Sheet) (entries : List Entry) (tree : Entry → Expr) :
    Prop where
  /-- No call fails. -/
  answers : ∀ e ∈ entries, ¬ S.IllFounded e.flat → S.Answers (tree e)
  /-- The cost is within the limit. -/
  cost : ∀ e ∈ entries, ¬ S.IllFounded e.flat → ∀ v n, S.Means (tree e) v n →
    n ≤ r.limit * r.limit

/-- What trees refer to, apart from other trees, are words. -/
def WordsStored (S : Sheet) (entries : List Entry) (tree : Entry → Expr) : Prop :=
  ∀ e ∈ entries, ∀ p, Expr.Within (.ref p) (tree e) → S.tree p = none →
    ∀ d, S.stored p = some d → ∃ w, d = .text w ∧ IsWord w

theorem Written.sane (hw : Written r entries tree)
    (stored : WordsStored (Sheet.ofStore r s scope entries tree) entries tree)
    (hf : Feasible r (Sheet.ofStore r s scope entries tree) entries tree) :
    (Sheet.ofStore r s scope entries tree).Sane r := by
  have hwell : ∀ p x, (Sheet.ofStore r s scope entries tree).tree p = some x →
      x.WellFormed (Sheet.ofStore r s scope entries tree).Good := by
    intro p x hx
    obtain ⟨e, he, rfl, rfl⟩ := Sheet.exists_entry hx
    exact (hw.wellFormed e he).mono fun q hq hpath => ⟨hpath, stored e he q hq⟩
  have hlisted : ∀ p, (Sheet.ofStore r s scope entries tree).tree p ≠ none →
      p ∈ entries.map Entry.flat := by
    intro p hp
    obtain ⟨x, hx⟩ := Option.ne_none_iff_exists'.1 hp
    obtain ⟨e, he, rfl, -⟩ := Sheet.exists_entry hx
    exact List.mem_map_of_mem he
  have hanswers : ∀ p x, (Sheet.ofStore r s scope entries tree).tree p = some x →
      ¬ (Sheet.ofStore r s scope entries tree).IllFounded p →
      (Sheet.ofStore r s scope entries tree).Answers x := by
    intro p x hx hp
    obtain ⟨e, he, rfl, rfl⟩ := Sheet.exists_entry hx
    exact hf.answers e he hp
  exact ⟨rfl, fun {p x} => hwell p x, fun h => (hw.hex h).isWord,
    fun hx hp => Sheet.exists_means hlisted hwell hanswers hx hp⟩

/-- **A run works every entry out.**  It ends with a stage of each entry, with nothing left to do
where the entry has a value. -/
theorem Written.evaluate_stage (hw : Written r entries tree)
    (stored : WordsStored (Sheet.ofStore r s scope entries tree) entries tree)
    (hf : Feasible r (Sheet.ofStore r s scope entries tree) entries tree)
    (hs : s.Sound) (hn : s.Named) :
    ∃ cells : List Sheet.Cell, cells.map Prod.fst = entries ∧
      (r.evaluate s scope entries).outcome = View.result scope (cells.map Sheet.Cell.item) ∧
      ∀ c ∈ cells, (Sheet.ofStore r s scope entries tree).Staged c ∧
        (Sheet.ofStore r s scope entries tree).AtMost 0 c.1.flat c.2 := by
  have hsane := hw.sane stored hf
  have hcells : ∀ c ∈ entries.map (fun e => (e, tree e)),
      (Sheet.ofStore r s scope entries tree).Staged c ∧
      (Sheet.ofStore r s scope entries tree).AtMost (r.limit * r.limit) c.1.flat c.2 := by
    intro c hc
    obtain ⟨e, he, rfl⟩ := List.mem_map.1 hc
    have htree : (Sheet.ofStore r s scope entries tree).tree e.flat = some (tree e) :=
      hw.tree_flat he
    refine ⟨⟨by rw [htree]; exact Option.some_ne_none _, hsane.stage htree⟩, ?_⟩
    rintro m ⟨e', u, n, -, -, hm⟩
    refine hf.cost e he ?_ u m hm
    -- A tree that has a value refers to nothing that is ill-founded.
    intro hill
    obtain ⟨q, hq, hqill⟩ := hill.exists_ref htree
    exact hm.not_illFounded hq hqill
  have hitems : View.items r entries =
      (entries.map fun e => (e, tree e)).map Sheet.Cell.item := by
    rw [View.items, List.map_map]
    refine List.map_congr_left fun e he => ?_
    rw [hw.expand_value he]
    rfl
  obtain ⟨v, cells, changing, hrun, hfst, hdone⟩ :=
    Sheet.passes_stage hsane r.limit 0 (hw.shows hsane) hcells
  refine ⟨cells, ?_, ?_, hdone⟩
  · rw [hfst, List.map_map]
    exact List.map_id _
  · have hview := congrArg Prod.fst (Resolver.evaluate_view r hs hn scope entries)
    rw [View.evaluate, hitems, hrun] at hview
    exact hview

/-- An entry that is not ill-founded ends as the word that it means. -/
theorem Written.cell_word (hw : Written r entries tree)
    (hs : (Sheet.ofStore r s scope entries tree).Sane r) {c : Sheet.Cell} (hc : c.1 ∈ entries)
    (hstaged : (Sheet.ofStore r s scope entries tree).Staged c)
    (hdone : (Sheet.ofStore r s scope entries tree).AtMost 0 c.1.flat c.2)
    (hill : ¬ (Sheet.ofStore r s scope entries tree).IllFounded c.1.flat) :
    ∃ u n, (Sheet.ofStore r s scope entries tree).Means (tree c.1) u n ∧ c.2 = .word u := by
  have htree : (Sheet.ofStore r s scope entries tree).tree c.1.flat = some (tree c.1) :=
    hw.tree_flat hc
  obtain ⟨u, n, hmeans⟩ := hs.valued htree hill
  obtain ⟨m, -, hm⟩ := hstaged.stage.meaning htree hmeans
  obtain rfl : m = 0 := Nat.le_zero.1 (hdone ⟨_, u, n, htree, hmeans, hm⟩)
  exact ⟨u, n, hmeans, hm.eq_word⟩

/-- The entries that are left unresolved are the ill-founded ones. -/
theorem Written.unfinished_iff (hw : Written r entries tree)
    (hs : (Sheet.ofStore r s scope entries tree).Sane r) {c : Sheet.Cell} (hc : c.1 ∈ entries)
    (hstaged : (Sheet.ofStore r s scope entries tree).Staged c)
    (hdone : (Sheet.ofStore r s scope entries tree).AtMost 0 c.1.flat c.2) :
    View.unfinished c.item = true ↔
      (Sheet.ofStore r s scope entries tree).IllFounded c.1.flat := by
  have hprintable := hstaged.stage.printable
  show hasUnresolved c.2.print = true ↔ _
  constructor
  · intro hleft
    by_contra hill
    obtain ⟨u, n, -, hword⟩ := hw.cell_word hs hc hstaged hdone hill
    rw [hword] at hleft hprintable
    rw [Expr.print, Expr.hasUnresolved_word (Expr.isWord_of_wellFormed hprintable)] at hleft
    cases hleft
  · intro hill
    obtain ⟨q, hq, -⟩ := hstaged.stage.illRef hill
    exact Expr.hasUnresolved_of_hasRef hprintable ⟨q, hq⟩

open Classical in
/-- The paths that a run reports. -/
theorem Written.paths_left (hw : Written r entries tree)
    (hs : (Sheet.ofStore r s scope entries tree).Sane r) {cells : List Sheet.Cell}
    (hcells : ∀ c ∈ cells, c.1 ∈ entries ∧ (Sheet.ofStore r s scope entries tree).Staged c ∧
      (Sheet.ofStore r s scope entries tree).AtMost 0 c.1.flat c.2) :
    ((cells.map Sheet.Cell.item).filter View.unfinished).map (·.1.flat) =
      ((cells.map Prod.fst).filter fun e =>
        (Sheet.ofStore r s scope entries tree).IllFounded e.flat).map Entry.flat := by
  rw [List.filter_map, List.filter_map, List.map_map, List.map_map]
  refine congrArg (List.map _) (List.filter_congr fun c hc => ?_)
  obtain ⟨hmem, hstaged, hdone⟩ := hcells c hc
  refine Bool.eq_iff_iff.2 ((hw.unfinished_iff hs hmem hstaged hdone).trans ?_)
  exact decide_eq_true_iff.symm

/-- Where no entry is ill-founded, the run comes to what the trees mean. -/
theorem Written.values_left (hw : Written r entries tree)
    (hs : (Sheet.ofStore r s scope entries tree).Sane r) {cells : List Sheet.Cell}
    (hcells : ∀ c ∈ cells, c.1 ∈ entries ∧ (Sheet.ofStore r s scope entries tree).Staged c ∧
      (Sheet.ofStore r s scope entries tree).AtMost 0 c.1.flat c.2)
    (hgood : ∀ e ∈ entries, ¬ (Sheet.ofStore r s scope entries tree).IllFounded e.flat)
    {value : Entry → Text} (hvalue : ∀ e ∈ entries, ∃ n,
      (Sheet.ofStore r s scope entries tree).Means (tree e) (value e) n) :
    (cells.map Sheet.Cell.item).map (fun item => item.1.withValue item.2) =
      (cells.map Prod.fst).map fun e => e.withValue (.text (value e)) := by
  rw [List.map_map, List.map_map]
  refine List.map_congr_left fun c hc => ?_
  obtain ⟨hmem, hstaged, hzero⟩ := hcells c hc
  -- A cell with nothing left to do holds a word, and that is the one text that its tree means.
  obtain ⟨u, n, hmeans, hword⟩ := hw.cell_word hs hmem hstaged hzero (hgood _ hmem)
  obtain ⟨m, hmeans'⟩ := hvalue c.1 hmem
  obtain ⟨rfl, -⟩ := hmeans.unique hmeans'
  show c.1.withValue (.text c.2.print) = c.1.withValue (.text (value c.1))
  rw [hword, Expr.print]

open Classical in
/-- **The outcome of a run**: the values of the trees if no entry is ill-founded, else an error that
names the ill-founded entries. -/
theorem Written.outcome (hw : Written r entries tree)
    (stored : WordsStored (Sheet.ofStore r s scope entries tree) entries tree)
    (hf : Feasible r (Sheet.ofStore r s scope entries tree) entries tree)
    (hs : s.Sound) (hn : s.Named) :
    ((∃ e ∈ entries, (Sheet.ofStore r s scope entries tree).IllFounded e.flat) ∧
      (r.evaluate s scope entries).outcome = .error (.error (.unresolved
        ((entries.filter fun e => (Sheet.ofStore r s scope entries tree).IllFounded e.flat).map
          Entry.flat) (some scope.name)))) ∨
    ((∀ e ∈ entries, ¬ (Sheet.ofStore r s scope entries tree).IllFounded e.flat) ∧
      ∃ value : Entry → Text,
        (∀ e ∈ entries, ∃ n, (Sheet.ofStore r s scope entries tree).Means (tree e) (value e) n) ∧
        (r.evaluate s scope entries).outcome =
          .ok (entries.map fun e => e.withValue (.text (value e)))) := by
  have hsane := hw.sane stored hf
  obtain ⟨cells, hfst, hout, hdone⟩ := hw.evaluate_stage stored hf hs hn
  have hcells : ∀ c ∈ cells, c.1 ∈ entries ∧ (Sheet.ofStore r s scope entries tree).Staged c ∧
      (Sheet.ofStore r s scope entries tree).AtMost 0 c.1.flat c.2 := by
    intro c hc
    rw [← hfst]
    exact ⟨List.mem_map_of_mem hc, by rw [hfst]; exact hdone c hc⟩
  rw [View.result, hw.paths_left hsane hcells, hfst] at hout
  by_cases hill : ∃ e ∈ entries, (Sheet.ofStore r s scope entries tree).IllFounded e.flat
  · -- The entries that are left are the ill-founded ones, and there is one of these.
    refine Or.inl ⟨hill, hout.trans ?_⟩
    obtain ⟨e, he, hbad⟩ := hill
    have hin : e.flat ∈ (entries.filter fun e =>
        (Sheet.ofStore r s scope entries tree).IllFounded e.flat).map Entry.flat :=
      List.mem_map_of_mem (List.mem_filter.2 ⟨he, decide_eq_true hbad⟩)
    split
    · next hnil =>
      rw [hnil] at hin
      cases hin
    · rfl
  · have hgood : ∀ e ∈ entries, ¬ (Sheet.ofStore r s scope entries tree).IllFounded e.flat :=
      fun e he hbad => hill ⟨e, he, hbad⟩
    -- Every tree means a text, so no entry is left.
    have hvalue : ∀ e, ∃ u, e ∈ entries →
        ∃ n, (Sheet.ofStore r s scope entries tree).Means (tree e) u n := by
      intro e
      by_cases he : e ∈ entries
      · obtain ⟨u, n, hmeans⟩ := hsane.valued (hw.tree_flat he) (hgood e he)
        exact ⟨u, fun _ => ⟨n, hmeans⟩⟩
      · exact ⟨[], fun h => absurd h he⟩
    obtain ⟨value, hvalue⟩ := Classical.skolem.1 hvalue
    have hnil : (entries.filter fun e =>
        (Sheet.ofStore r s scope entries tree).IllFounded e.flat) = [] := by
      refine List.filter_eq_nil_iff.2 fun e he => ?_
      rw [decide_eq_true_iff]
      exact hgood e he
    rw [hnil, hw.values_left hsane hcells hgood hvalue, hfst] at hout
    exact Or.inr ⟨hgood, value, hvalue, hout⟩

end Run

/-! ## Main statements -/

namespace Resolver

variable {r : Resolver} {s : Store} {scope : Scope} {entries : List Entry} {tree : Entry → Expr}

/-- Where every reference names an entry and no reference leads back, no entry is ill-founded. -/
theorem not_illFounded_of_acyclic
    (named : ∀ e ∈ entries, ∀ p, Expr.Within (.ref p) (tree e) →
      (∃ e' ∈ entries, e'.flat = p) ∨ ∃ w, s.view scope.visible p = some (.text w) ∧ IsWord w)
    (acyclic : ∀ e ∈ entries,
      ¬ TransGen (Sheet.ofStore r s scope entries tree).Refers e.flat e.flat)
    (hw : Written r entries tree) :
    ∀ e ∈ entries, ¬ (Sheet.ofStore r s scope entries tree).IllFounded e.flat := by
  rintro e he ⟨q, hq, hmiss | hcycle⟩
  · rcases hq.cases_tail with rfl | ⟨p, -, x, hx, hpq⟩
    · cases (hw.tree_flat he).symm.trans hmiss.1
    · obtain ⟨e', he', rfl, rfl⟩ := Sheet.exists_entry hx
      rcases named e' he' q hpq with ⟨e'', he'', rfl⟩ | ⟨w, hw', -⟩
      · cases (hw.tree_flat he'').symm.trans hmiss.1
      · cases hw'.symm.trans hmiss.2
  · obtain ⟨p, ⟨x, hx, -⟩, -⟩ := TransGen.head'_iff.1 hcycle
    obtain ⟨e', he', rfl, -⟩ := Sheet.exists_entry hx
    exact acyclic e' he' hcycle

/-- **Resolving texts agrees with working out trees.**  Let entries with distinct paths be written
as trees whose references name entries of the list or, failing that, visible words, without cycles.
If no call in them fails, and no unfolding takes more substitutions and calls than the square of the
limit, then resolving the scope succeeds, and each entry gets the value of its tree. -/
theorem evaluate_ok_means (hs : s.Sound) (hn : s.Named) (hw : Written r entries tree)
    (named : ∀ e ∈ entries, ∀ p, Expr.Within (.ref p) (tree e) →
      (∃ e' ∈ entries, e'.flat = p) ∨ ∃ w, s.view scope.visible p = some (.text w) ∧ IsWord w)
    (acyclic : ∀ e ∈ entries,
      ¬ TransGen (Sheet.ofStore r s scope entries tree).Refers e.flat e.flat)
    (answers : ∀ e ∈ entries, (Sheet.ofStore r s scope entries tree).Answers (tree e))
    (cost : ∀ e ∈ entries, ∀ v n, (Sheet.ofStore r s scope entries tree).Means (tree e) v n →
      n ≤ r.limit * r.limit) :
    ∃ value : Entry → Text,
      (∀ e ∈ entries, ∃ n, (Sheet.ofStore r s scope entries tree).Means (tree e) (value e) n) ∧
      (r.evaluate s scope entries).outcome =
        .ok (entries.map fun e => e.withValue (.text (value e))) := by
  have hgood := not_illFounded_of_acyclic named acyclic hw
  have hstored : WordsStored (Sheet.ofStore r s scope entries tree) entries tree := by
    intro e he p hp hnone d hd
    rcases named e he p hp with ⟨e', he', rfl⟩ | ⟨w, hview, hword⟩
    · cases (hw.tree_flat he').symm.trans hnone
    · cases hview.symm.trans hd
      exact ⟨w, rfl, hword⟩
  rcases hw.outcome hstored ⟨fun e he _ => answers e he, fun e he _ => cost e he⟩ hs hn with
    ⟨⟨e, he, hill⟩, -⟩ | ⟨-, hvalue⟩
  · exact absurd hill (hgood e he)
  · exact hvalue

/-- Colour arithmetic with one answer. -/
def answering : ColourMath := ⟨fun _ => .ok "#112233"⟩

/-- Two entries, the first of which refers to the second, and that to one of the palette. -/
def forwardEntries : List Entry :=
  [⟨[.key "b"], .text "$(x)", none⟩, ⟨[.key "x"], .text "f($(a))", none⟩]

/-- Their trees. -/
def forwardTree (e : Entry) : Expr :=
  if e.flat = "b" then .ref "x" else .call "f" [.ref "a"]

theorem isHexLiteral_answer : IsHexLiteral "#112233" := ⟨"112233", rfl, by decide, Or.inl rfl⟩

theorem isHexLiteral_aabbcc : IsHexLiteral "#aabbcc" := ⟨"aabbcc", rfl, by decide, Or.inl rfl⟩

theorem isPath_letter {p : Text} (h : p = "a" ∨ p = "b" ∨ p = "x") : IsPath p := by
  rcases h with rfl | rfl | rfl <;> exact ⟨by decide, by unfold Trimmed; decide, by decide⟩

theorem view_onePalette : onePalette.view Scope.vars.visible =
    fun p => if p = Text.ofString "a" then some (.text "#aabbcc") else none := by
  rw [onePalette, Store.view_add_entry Store.sound_empty Store.named_empty rfl rfl (by decide)]
  rfl

theorem written_forward : Written ⟨answering, 2, "palette"⟩ forwardEntries forwardTree := by
  refine ⟨?_, by decide, ?_, ?_⟩
  · intro call h hh
    cases hh
    exact isHexLiteral_answer
  · intro e he
    simp only [forwardEntries, List.mem_cons, List.not_mem_nil, or_false] at he
    rcases he with rfl | rfl <;> rfl
  · intro e he
    simp only [forwardEntries, List.mem_cons, List.not_mem_nil, or_false] at he
    rcases he with rfl | rfl
    · exact .ref (isPath_letter (by decide))
    · refine .call ⟨by decide, by decide⟩ ?_
      intro e he
      rw [List.mem_singleton.1 he]
      exact .ref (isPath_letter (by decide))

/-- The sheet of these entries. -/
def forwardSheet : Sheet :=
  Sheet.ofStore ⟨answering, 2, "palette"⟩ onePalette .vars forwardEntries forwardTree

theorem refers_forward {p q : Text} (h : forwardSheet.Refers p q) :
    (p = "b" ∧ q = "x") ∨ (p = "x" ∧ q = "a") := by
  obtain ⟨t, ht, hq⟩ := h
  obtain ⟨e, he, rfl, rfl⟩ := Sheet.exists_entry ht
  simp only [forwardEntries, List.mem_cons, List.not_mem_nil, or_false] at he
  rcases he with rfl | rfl
  · cases hq
    exact Or.inl ⟨rfl, rfl⟩
  · cases hq with
    | arg hmem hw =>
      cases List.mem_singleton.1 hmem
      cases hw
      exact Or.inr ⟨rfl, rfl⟩

/-- How deep a path of these entries lies. -/
def depth (p : Text) : Nat := if p = "b" then 2 else if p = "x" then 1 else 0

theorem depth_lt_of_refers {p q : Text} (h : TransGen forwardSheet.Refers p q) :
    depth q < depth p := by
  have hstep : ∀ {p q}, forwardSheet.Refers p q → depth q < depth p := by
    intro p q h
    rcases refers_forward h with ⟨rfl, rfl⟩ | ⟨rfl, rfl⟩ <;> decide
  induction h with
  | single h => exact hstep h
  | tail _ h ih => exact Nat.lt_trans (hstep h) ih

theorem means_forward_x : forwardSheet.Means (.call "f" [.ref "a"]) "#112233" 2 := by
  have ha : forwardSheet.Means (.ref "a") "#aabbcc" 1 := by
    refine .stored rfl ?_
    show onePalette.view Scope.vars.visible "a" = _
    rw [view_onePalette]
    rfl
  exact .call (.cons ha .nil) rfl

theorem means_forward_b : forwardSheet.Means (.ref "x") "#112233" 3 := .entry rfl means_forward_x

/-- Two passes of two steps resolve a forward reference to a call. -/
theorem forward_reference_resolved : ∃ value : Entry → Text,
    (∀ e ∈ forwardEntries, ∃ n, forwardSheet.Means (forwardTree e) (value e) n) ∧
    ((⟨answering, 2, "palette"⟩ : Resolver).evaluate onePalette .vars forwardEntries).outcome =
      .ok (forwardEntries.map fun e => e.withValue (.text (value e))) := by
  refine evaluate_ok_means onePalette_sound onePalette_named
    written_forward ?_ ?_ ?_ ?_
  · intro e he p hp
    rcases refers_forward ⟨_, written_forward.tree_flat he, hp⟩ with ⟨-, rfl⟩ | ⟨-, rfl⟩
    · exact Or.inl ⟨_, List.mem_cons_of_mem _ List.mem_cons_self, rfl⟩
    · right
      rw [view_onePalette]
      exact ⟨"#aabbcc", rfl, isHexLiteral_aabbcc.isWord⟩
  · exact fun e _ h => Nat.lt_irrefl _ (depth_lt_of_refers h)
  · exact fun e he name args _ vs n _ => ⟨_, rfl⟩
  · intro e he v n hm
    simp only [forwardEntries, List.mem_cons, List.not_mem_nil, or_false] at he
    rcases he with rfl | rfl
    · obtain ⟨-, rfl⟩ := hm.unique means_forward_b
      decide
    · obtain ⟨-, rfl⟩ := hm.unique means_forward_x
      decide

open Classical in
/-- **Unresolved errors name exactly the bad entries.**  Let entries with distinct paths be written
as trees, with nothing but words visible besides.  If no call fails in the unfolding of an entry
that is not ill-founded, and none of these takes more substitutions and calls than the square of the
limit, then resolving the scope reports unresolved entries exactly if some entry is ill-founded, and
it reports the ill-founded entries, in the order of the list. -/
theorem unresolved_iff_illFounded (hs : s.Sound) (hn : s.Named) (hw : Written r entries tree)
    (words : ∀ p d, s.view scope.visible p = some d → ∃ w, d = .text w ∧ IsWord w)
    (hf : Feasible r (Sheet.ofStore r s scope entries tree) entries tree) :
    ((∃ paths name, (r.evaluate s scope entries).outcome =
        .error (.error (.unresolved paths name))) ↔
      ∃ e ∈ entries, (Sheet.ofStore r s scope entries tree).IllFounded e.flat) ∧
    ∀ paths name, (r.evaluate s scope entries).outcome =
        .error (.error (.unresolved paths name)) →
      paths = (entries.filter fun e =>
        (Sheet.ofStore r s scope entries tree).IllFounded e.flat).map Entry.flat := by
  have hstored : WordsStored (Sheet.ofStore r s scope entries tree) entries tree :=
    fun _ _ p _ _ d hd => words p d hd
  rcases hw.outcome hstored hf hs hn with ⟨hill, hout⟩ | ⟨hgood, value, -, hout⟩
  · rw [hout]
    refine ⟨⟨fun _ => hill, fun _ => ⟨_, _, rfl⟩⟩, ?_⟩
    intro paths name h
    cases h
    rfl
  · rw [hout]
    refine ⟨⟨?_, ?_⟩, ?_⟩
    · rintro ⟨paths, name, h⟩
      cases h
    · rintro ⟨e, he, hill⟩
      exact absurd hill (hgood e he)
    · intro paths name h
      cases h

/-- An entry that refers to itself, one that refers to it, and one that does neither. -/
def loopEntries : List Entry :=
  [⟨[.key "b"], .text "$(b)", none⟩, ⟨[.key "x"], .text "f($(b))", none⟩,
    ⟨[.key "y"], .text "$(a)", none⟩]

/-- Their trees. -/
def loopTree (e : Entry) : Expr :=
  if e.flat = "b" then .ref "b" else if e.flat = "x" then .call "f" [.ref "b"] else .ref "a"

theorem written_loop : Written ⟨answering, 1, "palette"⟩ loopEntries loopTree := by
  refine ⟨?_, by decide, ?_, ?_⟩
  · intro call h hh
    cases hh
    exact isHexLiteral_answer
  · intro e he
    simp only [loopEntries, List.mem_cons, List.not_mem_nil, or_false] at he
    rcases he with rfl | rfl | rfl <;> rfl
  · intro e he
    simp only [loopEntries, List.mem_cons, List.not_mem_nil, or_false] at he
    rcases he with rfl | rfl | rfl
    · exact .ref (isPath_letter (by decide))
    · refine .call ⟨by decide, by decide⟩ ?_
      intro e he
      rw [List.mem_singleton.1 he]
      exact .ref (isPath_letter (by decide))
    · exact .ref (isPath_letter (by decide))

/-- The sheet of these entries. -/
def loopSheet : Sheet :=
  Sheet.ofStore ⟨answering, 1, "palette"⟩ onePalette .vars loopEntries loopTree

theorem illFounded_loop {p : Text} (hp : p = "b" ∨ p = "x") : loopSheet.IllFounded p := by
  have hself : loopSheet.Refers "b" "b" := ⟨.ref "b", rfl, .here⟩
  rcases hp with rfl | rfl
  · exact ⟨"b", .refl, Or.inr (.single hself)⟩
  · refine ⟨"b", .single ⟨.call "f" [.ref "b"], rfl, .arg List.mem_cons_self .here⟩, ?_⟩
    exact Or.inr (.single hself)

/-- One pass of one step is enough to tell these entries apart. -/
theorem self_reference_unresolved : ∃ paths name,
    ((⟨answering, 1, "palette"⟩ : Resolver).evaluate onePalette .vars loopEntries).outcome =
      .error (.error (.unresolved paths name)) := by
  refine (unresolved_iff_illFounded onePalette_sound onePalette_named written_loop ?_ ?_).1.2
    ⟨_, List.mem_cons_self, illFounded_loop (Or.inl rfl)⟩
  · intro p d h
    rw [view_onePalette] at h
    dsimp only at h
    split at h
    · cases h
      exact ⟨"#aabbcc", rfl, isHexLiteral_aabbcc.isWord⟩
    · cases h
  · refine ⟨fun e _ _ name args _ vs n _ => ⟨_, rfl⟩, ?_⟩
    intro e he hfounded v n hm
    simp only [loopEntries, List.mem_cons, List.not_mem_nil, or_false] at he
    rcases he with rfl | rfl | rfl
    · exact absurd (illFounded_loop (Or.inl rfl)) hfounded
    · exact absurd (illFounded_loop (Or.inr rfl)) hfounded
    · change Sheet.Means _ (.ref "a") v n at hm
      cases hm with
      | entry htree _ => cases htree
      | stored _ _ => decide

end Resolver

end Colourway
