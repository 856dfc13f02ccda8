/-
# `Proofs.Program.Blocks` — the variables of a function and of its blocks

Blocks nest to any depth, and a function has the variables of all of them.  A record in a
function or in its blocks is found along a path, the numbers of the records on the way
(`BlockPath`).  The variables of a function are the records for local variables on such paths, one
for each path, in the order of the paths (`Flattens`): a block before what is in it, and that
before the next record.

Links that lead astray may reach a record on several paths, and from several functions.  In
records that are well nested this does not happen: the order of the paths is that of the offsets,
and every record has one function only.
-/
import DwarfOne.Proofs.Program.Accounts
import DwarfOne.Proofs.Record.Preorder

namespace DwarfOne

namespace Entry

/-! ## Paths through blocks -/

/-- A record in another one or in the blocks in it, and the numbers of the records on the way. -/
inductive BlockPath : Entry → List Nat → Entry → Prop
  | here {e x : Entry} {k : Nat} (h : e.children[k]? = some x) : BlockPath e [k] x
  | inside {e b x : Entry} {k : Nat} {path : List Nat} (h : e.children[k]? = some b)
      (hblock : b.tag = .lexicalBlock) (hrest : BlockPath b path x) : BlockPath e (k :: path) x

/-- The local variables found along paths, in the order of the paths. -/
structure Flattens (e : Entry) (found : List (List Nat × Entry)) : Prop where
  mem_iff : ∀ path x, (path, x) ∈ found ↔ BlockPath e path x ∧ x.tag = .localVariable
  preorder : found.Pairwise fun v w => List.Lex (· < ·) v.1 w.1

/-- What a record adds under its number: itself, or what there is in it. -/
def numbered (inner : Entry → List (List Nat × Entry)) (c : Entry × Nat) :
    List (List Nat × Entry) :=
  if c.1.tag = .localVariable then [([c.2], c.1)]
  else if c.1.tag = .lexicalBlock then (inner c.1).map fun v => (c.2 :: v.1, v.2)
  else []

/-- The local variables in a record and in its blocks to a depth, with their paths. -/
def variablesTo : Nat → Entry → List (List Nat × Entry)
  | 0, _ => []
  | depth + 1, e => e.children.zipIdx.flatMap (numbered (variablesTo depth))

theorem mem_numbered_iff {inner : Entry → List (List Nat × Entry)} {c x : Entry} {k : Nat}
    {path : List Nat} :
    (path, x) ∈ numbered inner (c, k) ↔ c.tag = .localVariable ∧ path = [k] ∧ x = c ∨
      c.tag = .lexicalBlock ∧ ∃ rest, (rest, x) ∈ inner c ∧ path = k :: rest := by
  unfold numbered
  constructor
  · intro hmem
    split at hmem
    case isTrue htag =>
        obtain ⟨rfl, rfl⟩ := Prod.mk.inj (List.mem_singleton.mp hmem)
        exact .inl ⟨htag, rfl, rfl⟩
    case isFalse =>
        split at hmem
        case isTrue htag =>
            obtain ⟨v, hv, heq⟩ := List.mem_map.mp hmem
            obtain ⟨rfl, rfl⟩ := Prod.mk.inj heq
            exact .inr ⟨htag, v.1, hv, rfl⟩
        case isFalse => exact absurd hmem List.not_mem_nil
  · rintro (⟨htag, rfl, rfl⟩ | ⟨htag, rest, hrest, rfl⟩)
    · simp [htag]
    · simpa [htag] using hrest

theorem mem_variablesTo_succ {depth : Nat} {e x : Entry} {path : List Nat} :
    (path, x) ∈ variablesTo (depth + 1) e ↔ ∃ k c, e.children[k]? = some c ∧
      (path, x) ∈ numbered (variablesTo depth) (c, k) := by
  rw [variablesTo, List.mem_flatMap]
  constructor
  · rintro ⟨c, hc, hmem⟩
    exact ⟨c.2, c.1, List.mem_zipIdx_iff_getElem?.mp hc, hmem⟩
  · rintro ⟨k, c, hget, hmem⟩
    exact ⟨(c, k), List.mem_zipIdx_iff_getElem?.mpr hget, hmem⟩

/-- A depth for every place from the record on is enough for all paths. -/
theorem mem_variablesTo_iff {depth : Nat} {e : Entry} (hd : e.debug.WellLinked)
    (hdepth : e.debug.records.size ≤ e.place + depth) {path : List Nat} {x : Entry} :
    (path, x) ∈ variablesTo depth e ↔ BlockPath e path x ∧ x.tag = .localVariable := by
  induction depth generalizing e path with
  | zero =>
      -- behind the last record there is nothing
      have hnone {k : Nat} {c : Entry} (hget : e.children[k]? = some c) : False := by
        have hlt := place_lt_of_mem_children hd (List.mem_of_getElem? hget)
        omega
      constructor
      · intro hmem
        exact absurd hmem List.not_mem_nil
      · rintro ⟨hpath, -⟩
        cases hpath with
        | here hget => exact (hnone hget).elim
        | inside hget _ _ => exact (hnone hget).elim
  | succ depth ih =>
      rw [mem_variablesTo_succ]
      have hinner {k : Nat} {c : Entry} (hget : e.children[k]? = some c) {rest : List Nat} :
          (rest, x) ∈ variablesTo depth c ↔ BlockPath c rest x ∧ x.tag = .localVariable := by
        have hc := List.mem_of_getElem? hget
        have hlt := place_lt_of_mem_children hd hc
        have hdebug := debug_of_mem_children hc
        exact ih (by rwa [hdebug]) (by rw [hdebug]; omega)
      constructor
      · rintro ⟨k, c, hget, hmem⟩
        rcases mem_numbered_iff.mp hmem with ⟨htag, rfl, rfl⟩ | ⟨htag, rest, hrest, rfl⟩
        · exact ⟨.here hget, htag⟩
        · obtain ⟨hpath, hx⟩ := (hinner hget).mp hrest
          exact ⟨.inside hget htag hpath, hx⟩
      · rintro ⟨hpath, hx⟩
        cases hpath with
        | here hget => exact ⟨_, x, hget, mem_numbered_iff.mpr (.inl ⟨hx, rfl, rfl⟩)⟩
        | inside hget hblock hrest =>
            have hmem := (hinner hget).mpr ⟨hrest, hx⟩
            exact ⟨_, _, hget, mem_numbered_iff.mpr (.inr ⟨hblock, _, hmem, rfl⟩)⟩

theorem exists_cons_of_mem_numbered {inner : Entry → List (List Nat × Entry)} {c : Entry × Nat}
    {v : List Nat × Entry} (hv : v ∈ numbered inner c) : ∃ rest, v.1 = c.2 :: rest := by
  rcases mem_numbered_iff.mp hv with ⟨-, hpath, -⟩ | ⟨-, rest, -, hpath⟩
  · exact ⟨[], hpath⟩
  · exact ⟨rest, hpath⟩

/-- What is found under one number comes before what is found under the next. -/
theorem pairwise_variablesTo (depth : Nat) (e : Entry) :
    (variablesTo depth e).Pairwise fun v w => List.Lex (· < ·) v.1 w.1 := by
  induction depth generalizing e with
  | zero => exact .nil
  | succ depth ih =>
      rw [variablesTo, List.pairwise_flatMap]
      constructor
      · intro c _
        unfold numbered
        split
        · exact List.pairwise_singleton _ _
        · split
          · exact List.pairwise_map.mpr ((ih c.1).imp fun h => .cons h)
          · exact .nil
      · have hnumbers : e.children.zipIdx.Pairwise fun c c' => c.2 < c'.2 := by
          rw [← List.pairwise_map, List.zipIdx_map_snd]
          exact List.pairwise_lt_range'
        refine hnumbers.imp fun {c c'} hlt v hv w hw => ?_
        obtain ⟨rest, hrest⟩ := exists_cons_of_mem_numbered hv
        obtain ⟨rest', hrest'⟩ := exists_cons_of_mem_numbered hw
        rw [hrest, hrest']
        exact .rel hlt

theorem flattens_variablesTo {e : Entry} (hd : e.debug.WellLinked) :
    e.Flattens (variablesTo e.debug.records.size e) :=
  ⟨fun _ _ => mem_variablesTo_iff hd (Nat.le_add_left _ _), pairwise_variablesTo _ e⟩

/-! ## The walk takes these paths -/

end Entry

namespace Container

variable {c : Container} (hc : c = .function ∨ c = .block)
include hc

/-- What is neither a variable nor a block is at most part of a signature. -/
theorem role?_cases (tag : Tag) :
    tag = .localVariable ∧ c.role? tag = some .local ∨
      tag = .lexicalBlock ∧ c.role? tag = some .block ∨
      tag ≠ .localVariable ∧ tag ≠ .lexicalBlock ∧
        (c.role? tag = none ∨ c.role? tag = some .parameter ∨ c.role? tag = some .more) := by
  by_cases hlocal : tag = .localVariable
  · subst hlocal
    rcases hc with rfl | rfl <;> exact .inl ⟨rfl, rfl⟩
  by_cases hblock : tag = .lexicalBlock
  · subst hblock
    rcases hc with rfl | rfl <;> exact .inr (.inl ⟨rfl, rfl⟩)
  refine .inr (.inr ⟨hlocal, hblock, ?_⟩)
  have hnone := blockRole?_eq_none hlocal hblock
  rcases hc with rfl | rfl
  · rw [role?, hnone, Option.none_or]
    unfold signatureRole?
    split <;> simp
  · exact .inl hnone

theorem role?_eq_local_iff (tag : Tag) : c.role? tag = some .local ↔ tag = .localVariable := by
  rcases role?_cases hc tag with ⟨htag, hrole⟩ | ⟨htag, hrole⟩ | ⟨hlocal, -, hrole⟩
  · exact ⟨fun _ => htag, fun _ => hrole⟩
  · rw [hrole, htag]
    simp
  · rcases hrole with hrole | hrole | hrole <;> simp [hlocal, hrole]

theorem inside?_eq (tag : Tag) :
    c.inside? tag = if tag = .lexicalBlock then some .block else none := by
  rcases role?_cases hc tag with ⟨htag, hrole⟩ | ⟨htag, hrole⟩ | ⟨-, hblock, hrole⟩
  · rw [inside?, hrole, htag]
    rfl
  · rw [inside?, hrole, if_pos htag]
  · rcases hrole with hrole | hrole | hrole <;> rw [inside?, hrole, if_neg hblock]

/-- Functions and blocks take the same records for variables and for blocks. -/
theorem locals_subtree (parent : Option Entry) (x : Entry) (inner : Container → List Visit) :
    Visit.locals (Visit.subtree { container := c, parent, entry := x } inner) =
      if x.tag = .localVariable then [x]
      else if x.tag = .lexicalBlock then Visit.locals (inner .block)
      else [] := by
  rw [Visit.subtree, Visit.locals, List.filter_cons, inside?_eq hc]
  simp only [Visit.role?, role?_eq_local_iff hc, decide_eq_true_eq]
  by_cases hlocal : x.tag = .localVariable
  · simp [hlocal]
  · by_cases hblock : x.tag = .lexicalBlock
    · simp [hblock, Visit.locals, Visit.role?]
    · simp [hlocal, hblock]

end Container

namespace Entry

/-- The walk finds the variables along the paths, and in their order. -/
theorem map_snd_variablesTo (depth : Nat) {c : Container} (hc : c = .function ∨ c = .block)
    (e : Entry) :
    (variablesTo depth e).map Prod.snd = Visit.locals (visitsTo depth c e) := by
  induction depth generalizing c e with
  | zero => rfl
  | succ depth ih =>
      let found (x : Entry) := Visit.locals
        (Visit.subtree { container := c, parent := some e, entry := x } fun c' =>
          visitsTo depth c' x)
      have hnumbered (x : Entry × Nat) :
          (numbered (variablesTo depth) x).map Prod.snd = found x.1 := by
        have hfound := Container.locals_subtree hc (some e) x.1 fun c' => visitsTo depth c' x.1
        rw [← ih (.inr rfl) x.1] at hfound
        refine .trans ?_ hfound.symm
        rw [numbered]
        split
        · rfl
        · split
          · rw [List.map_map]
            rfl
          · rfl
      calc (variablesTo (depth + 1) e).map Prod.snd
          = e.children.zipIdx.flatMap fun x => found x.1 := by
            rw [variablesTo, List.map_flatMap]
            exact List.flatMap_congr fun x _ => hnumbered x
        _ = (e.children.zipIdx.map Prod.fst).flatMap found := by
            rw [List.flatMap_map]
        _ = Visit.locals (visitsTo (depth + 1) c e) := by
            rw [List.zipIdx_map_fst, visitsTo, Visit.locals_flatMap]

/-! ## Records that are well nested -/

theorem eq_of_place_eq {x y : Entry} (hdebug : x.debug = y.debug) (hplace : x.place = y.place) :
    x = y := by
  cases x
  cases y
  cases hdebug
  cases hplace
  rfl

theorem BlockPath.debug_eq {e x : Entry} {path : List Nat} (h : BlockPath e path x) :
    x.debug = e.debug := by
  induction h with
  | here hget => exact debug_of_mem_children (List.mem_of_getElem? hget)
  | inside hget _ _ ih => exact ih.trans (debug_of_mem_children (List.mem_of_getElem? hget))

theorem BlockPath.isBelow {e x : Entry} {path : List Nat} (h : BlockPath e path x) :
    e.debug.Below e.place x.place := by
  induction h with
  | here hget => exact .single (mem_children_iff.mp (List.mem_of_getElem? hget)).2.1
  | inside hget _ _ ih =>
      obtain ⟨hdebug, hplace, -⟩ := mem_children_iff.mp (List.mem_of_getElem? hget)
      rw [hdebug] at ih
      exact .head hplace ih

theorem BlockPath.place_lt {e x : Entry} {path : List Nat} (hd : e.debug.WellLinked)
    (h : BlockPath e path x) : e.place < x.place ∧ x.place < e.debug.records.size := by
  induction h with
  | here hget => exact place_lt_of_mem_children hd (List.mem_of_getElem? hget)
  | inside hget _ _ ih =>
      have hmem := List.mem_of_getElem? hget
      have hdebug := debug_of_mem_children hmem
      have hlt := place_lt_of_mem_children hd hmem
      rw [hdebug] at ih
      have hinner := ih hd
      exact ⟨hlt.1.trans hinner.1, hinner.2⟩

/-- A record comes with all that is found in it before the next one. -/
theorem lt_place_of_lt {e b b' : Entry} (hnested : e.debug.WellNested) {k k' : Nat}
    (hlt : k < k') (hget : e.children[k]? = some b) (hget' : e.children[k']? = some b') {i : Nat}
    (hi : e.debug.Below b.place i) : i < b'.place := by
  have hchildren : e.children.Pairwise fun b b' =>
      ∀ i, e.debug.Below b.place i → i < b'.place :=
    (List.pairwise_map.mpr (hnested.before e.place)).filter _
  obtain ⟨hk, rfl⟩ := List.getElem?_eq_some_iff.mp hget
  obtain ⟨hk', rfl⟩ := List.getElem?_eq_some_iff.mp hget'
  exact List.pairwise_iff_getElem.mp hchildren k k' hk hk' hlt i hi

/-- The order of the paths is the order of the records. -/
theorem BlockPath.place_lt_of_lex {e x x' : Entry} {path path' : List Nat}
    (hd : e.debug.WellLinked) (hnested : e.debug.WellNested) (h : BlockPath e path x)
    (h' : BlockPath e path' x') (hlex : List.Lex (· < ·) path path') : x.place < x'.place := by
  -- paths part at two records of one list, or one of them goes on behind the end of the other
  induction h generalizing path' with
  | @here e x k hget =>
      cases h' with
      | here hget' =>
          cases hlex with
          | rel hlt => exact lt_place_of_lt hnested hlt hget hget' .refl
          | cons hlex => cases hlex
      | inside hget' hblock hrest =>
          have hmem := List.mem_of_getElem? hget'
          have hinner := hrest.place_lt (by rwa [debug_of_mem_children hmem])
          cases hlex with
          | rel hlt => exact (lt_place_of_lt hnested hlt hget hget' .refl).trans hinner.1
          | cons hlex =>
              cases hget.symm.trans hget'
              exact hinner.1
  | @inside e b x k path hget hblock hrest ih =>
      have hdebug := debug_of_mem_children (List.mem_of_getElem? hget)
      have hbelow := hrest.isBelow
      rw [hdebug] at hbelow
      cases h' with
      | here hget' =>
          cases hlex with
          | rel hlt => exact lt_place_of_lt hnested hlt hget hget' hbelow
          | cons hlex => cases hlex
      | inside hget' hblock' hrest' =>
          cases hlex with
          | rel hlt =>
              have hmem := List.mem_of_getElem? hget'
              have hinner := hrest'.place_lt (by rwa [debug_of_mem_children hmem])
              exact (lt_place_of_lt hnested hlt hget hget' hbelow).trans hinner.1
          | cons hlex =>
              cases hget.symm.trans hget'
              exact ih (by rwa [hdebug]) (by rwa [hdebug]) hrest' hlex

/-- The record around one on a path is where the path starts, or a block on it. -/
theorem BlockPath.exists_parent {e x : Entry} {path : List Nat} (h : BlockPath e path x) :
    ∃ q, x ∈ q.children ∧ (q = e ∨ q.tag = .lexicalBlock ∧ ∃ path', BlockPath e path' q) := by
  induction h with
  | here hget => exact ⟨_, List.mem_of_getElem? hget, .inl rfl⟩
  | inside hget hblock _ ih =>
      obtain ⟨q, hx, rfl | ⟨htag, path', hpath⟩⟩ := ih
      · exact ⟨_, hx, .inr ⟨hblock, _, .here hget⟩⟩
      · exact ⟨q, hx, .inr ⟨htag, _, .inside hget hblock hpath⟩⟩

/-- Nothing is found from two records that are no blocks. -/
theorem BlockPath.eq_of_same {e e' x : Entry} {path path' : List Nat} (hd : e.debug.WellLinked)
    (hnested : e.debug.WellNested) (hdebug : e'.debug = e.debug) (h : BlockPath e path x)
    (h' : BlockPath e' path' x) (htag : e.tag ≠ .lexicalBlock) (htag' : e'.tag ≠ .lexicalBlock) :
    e = e' := by
  generalize hn : x.place = n
  induction n using Nat.strong_induction_on generalizing x path path' with
  | _ n ih =>
      obtain ⟨q, hq, hcase⟩ := h.exists_parent
      obtain ⟨q', hq', hcase'⟩ := h'.exists_parent
      -- both paths come through the one record around it
      obtain ⟨hdebug₁, hplace, -⟩ := mem_children_iff.mp hq
      obtain ⟨hdebug₂, hplace', -⟩ := mem_children_iff.mp hq'
      have hqdebug : q.debug = e.debug := hdebug₁.symm.trans h.debug_eq
      have hqdebug' : q'.debug = e.debug := hdebug₂.symm.trans h.debug_eq
      rw [hqdebug] at hplace
      rw [hqdebug'] at hplace'
      obtain rfl : q = q' := by
        have hparent := hnested.parent_eq q.place x.place hplace
        rw [hnested.parent_eq q'.place x.place hplace', Option.some.injEq] at hparent
        exact eq_of_place_eq (hqdebug.trans hqdebug'.symm) hparent.symm
      have hlt := (place_lt_of_mem_children (by rwa [hqdebug]) hq).1
      rcases hcase with rfl | ⟨hblock, through, hpath⟩
      · rcases hcase' with heq | ⟨hblock', -⟩
        · exact heq
        · exact absurd hblock' htag
      · rcases hcase' with rfl | ⟨-, through', hpath'⟩
        · exact absurd hblock htag'
        · exact ih q.place (by omega) hpath hpath' rfl

end Entry

/-! ## The variables of a function -/

namespace Function

/-- The variables are what the records found in the function and in its blocks were read into. -/
def DeclaredIn (e : Entry) (f : Function) : Prop :=
  ∃ found, e.Flattens found ∧ List.Forall₂ Local.OfRecord (found.map Prod.snd) f.locals

theorem Accounts.declaredIn {e : Entry} {f : Function} (hd : e.debug.WellLinked)
    (h : f.Accounts e) : f.DeclaredIn e := by
  refine ⟨_, Entry.flattens_variablesTo hd, ?_⟩
  rw [Entry.map_snd_variablesTo _ (.inl rfl)]
  exact h.locals

variable {e e' : Entry} {f f' : Function}

theorem DeclaredIn.exists_blockPath (h : f.DeclaredIn e) {l : Local} (hl : l ∈ f.locals) :
    ∃ path x, e.BlockPath path x ∧ l.offset = x.offset := by
  obtain ⟨found, hfound, hlocals⟩ := h
  obtain ⟨x, hx, hrecord⟩ := Program.exists_of_mem_of_forall₂ hlocals hl
  obtain ⟨v, hv, rfl⟩ := List.mem_map.mp hx
  exact ⟨v.1, v.2, ((hfound.mem_iff v.1 v.2).mp hv).1, hrecord.1⟩

theorem DeclaredIn.increasing (hd : e.debug.WellLinked) (hnested : e.debug.WellNested)
    (h : f.DeclaredIn e) : (f.locals.map Local.offset).Pairwise (· < ·) := by
  obtain ⟨found, hfound, hlocals⟩ := h
  rw [Entry.map_offset_of_forall₂ (fun _ _ hrecord => hrecord.1) hlocals, List.map_map,
    List.pairwise_map]
  refine hfound.preorder.imp_of_mem fun {v w} hv hw hlex => ?_
  obtain ⟨hpath, -⟩ := (hfound.mem_iff v.1 v.2).mp hv
  obtain ⟨hpath', -⟩ := (hfound.mem_iff w.1 w.2).mp hw
  have hlt := hpath.place_lt_of_lex hd hnested hpath' hlex
  show (v.2.debug.record v.2.place).offset < (w.2.debug.record w.2.place).offset
  rw [hpath.debug_eq, hpath'.debug_eq]
  exact hnested.offset_lt _ _ hlt (hpath'.place_lt hd).2

/-- Functions with a variable in common are one and the same. -/
theorem DeclaredIn.eq_of_offset_eq (hd : e.debug.WellLinked) (hnested : e.debug.WellNested)
    (hdebug : e'.debug = e.debug) (htag : e.tag ≠ .lexicalBlock) (htag' : e'.tag ≠ .lexicalBlock)
    (h : f.DeclaredIn e) (h' : f'.DeclaredIn e') {l l' : Local} (hl : l ∈ f.locals)
    (hl' : l' ∈ f'.locals) (hoffset : l.offset = l'.offset) : e = e' := by
  obtain ⟨path, x, hpath, hx⟩ := h.exists_blockPath hl
  obtain ⟨path', x', hpath', hx'⟩ := h'.exists_blockPath hl'
  have hxdebug : x.debug = e.debug := hpath.debug_eq
  have hxdebug' : x'.debug = e.debug := hpath'.debug_eq.trans hdebug
  have hsame : (e.debug.record x.place).offset = (e.debug.record x'.place).offset := by
    rw [hx, hx'] at hoffset
    rw [← hxdebug]
    refine hoffset.trans ?_
    rw [hxdebug, ← hxdebug']
    rfl
  have hbound := (hpath.place_lt hd).2
  have hbound' := (hpath'.place_lt (by rwa [hdebug])).2
  rw [hdebug] at hbound'
  obtain rfl : x = x' := Entry.eq_of_place_eq (hxdebug.trans hxdebug'.symm)
    (hnested.eq_of_offset_eq hbound hbound' hsame)
  exact hpath.eq_of_same hd hnested hdebug hpath' htag htag'

end Function

/-- The records for functions that the walk meets. -/
def DebugInfo.functionEntries (d : DebugInfo) : List Entry :=
  d.unitEntries.flatMap (·.playing .unit .function)

theorem DebugInfo.exists_of_mem_functionEntries {d : DebugInfo} {e : Entry}
    (he : e ∈ d.functionEntries) :
    e.debug = d ∧ e.tag ≠ .lexicalBlock ∧ ∃ u : Entry, u.debug = d ∧ e ∈ u.children := by
  obtain ⟨u, hu, he⟩ := List.mem_flatMap.mp he
  obtain ⟨he, hrole⟩ := List.mem_filter.mp he
  obtain ⟨i, -, rfl⟩ := List.mem_map.mp (List.mem_filter.mp hu).1
  refine ⟨Entry.debug_of_mem_children he, fun htag => ?_, _, rfl, he⟩
  rw [htag] at hrole
  exact absurd (of_decide_eq_true hrole) (by decide)

namespace Program

/-- The variables of every function are the local variables found in its record and in its blocks,
in the order they are met.  Where the records are a forest, they are in the order of their
offsets, and none is in two functions. -/
theorem flattened_of_build [RangeMap UInt32] {order : ByteOrder} {bytes : List UInt8}
    {line : Option (List UInt8)} {d : DebugInfo} (hd : DebugInfo.decode order bytes line = .ok d)
    {settings : DiagnosticSettings} {p : Program} {shown : Diagnostics}
    (hp : build d settings = .ok (p, shown)) :
    (∀ (o : UInt32) f, p.functions[o]? = some f →
        ∃ e ∈ d.functionEntries, e.offset = o ∧ f.DeclaredIn e) ∧
      (bytes.length < 2 ^ 32 → ∀ e ∈ d.functionEntries,
        ∃ f, p.functions[e.offset]? = some f ∧ f.DeclaredIn e) ∧
      ∀ forest : Forest, bytes = Draft.encodeAll order (forest.drafts 0) →
        bytes.length < 2 ^ 32 →
        (∀ (o : UInt32) f, p.functions[o]? = some f →
          (f.locals.map Local.offset).Pairwise (· < ·)) ∧
        ∀ (o o' : UInt32) f f', p.functions[o]? = some f → p.functions[o']? = some f' → o ≠ o' →
          ∀ l ∈ f.locals, ∀ l' ∈ f'.locals, l.offset ≠ l'.offset := by
  obtain ⟨hlinked, haccounts⟩ := accounts_of_build hd hp
  have hdeclared : ∀ (o : UInt32) f, p.functions[o]? = some f →
      ∃ e ∈ d.functionEntries, e.offset = o ∧ f.DeclaredIn e := by
    intro o f hf
    obtain ⟨e, he, hoffset, hfunction⟩ := haccounts.functions.exists_of_getElem? o f hf
    obtain ⟨hdebug, -⟩ := DebugInfo.exists_of_mem_functionEntries he
    exact ⟨e, he, hoffset, hfunction.declaredIn (by rwa [hdebug])⟩
  refine ⟨hdeclared, fun hbytes e he => ?_, ?_⟩
  · obtain ⟨f, hf⟩ := exists_getElem?_of_mem (haccounts.functions.mem e he)
    obtain ⟨e', he', hoffset, hfunction⟩ := hdeclared e.offset f hf
    obtain ⟨-, -, u, hu, hchild⟩ := DebugInfo.exists_of_mem_functionEntries he
    obtain ⟨-, -, u', hu', hchild'⟩ := DebugInfo.exists_of_mem_functionEntries he'
    obtain rfl := (DebugInfo.indexed_of_decode hbytes hd).eq_of_offset_eq hu hu' hchild hchild'
      hoffset.symm
    exact ⟨f, hf, hfunction⟩
  · rintro forest rfl hsize
    have hnested := DebugInfo.wellNested_of_decode forest hsize hd
    constructor
    · intro o f hf
      obtain ⟨e, he, -, hfunction⟩ := hdeclared o f hf
      obtain ⟨rfl, -⟩ := DebugInfo.exists_of_mem_functionEntries he
      exact hfunction.increasing hlinked hnested
    · intro o o' f f' hf hf' hne l hl l' hl' hoffset
      obtain ⟨e, he, rfl, hfunction⟩ := hdeclared o f hf
      obtain ⟨e', he', rfl, hfunction'⟩ := hdeclared o' f' hf'
      obtain ⟨rfl, htag, -⟩ := DebugInfo.exists_of_mem_functionEntries he
      obtain ⟨hdebug', htag', -⟩ := DebugInfo.exists_of_mem_functionEntries he'
      exact hne (congrArg Entry.offset
        (hfunction.eq_of_offset_eq hlinked hnested hdebug' htag htag' hfunction' hl hl' hoffset))

end Program

namespace Forest

/-- A function with a parameter, a stray member and padding among its variables and blocks, and a
second function. -/
def blocks : Forest :=
  let function := Node.plain 0x06 (by decide)
  let block := Node.plain 0x0b (by decide)
  let stored := Single.leaf (.plain 0x0c (by decide))
  let parameter := Single.leaf (.plain 0x05 (by decide))
  let member := Single.leaf (.plain 0x0d (by decide))
  let padding := Single.filler
    { length := 6, tag := 0x0c, fill := [], null_or_padding := by decide, tag_eq := by decide
      length_fill := by decide }
  .node .unit
    (.node function
      (.single parameter <| .single stored <| .single padding <|
        .node block
          (.node block (.single stored .nil) .null <| .single member <| .single stored .nil)
          .null <|
        .single stored .nil)
      .null <|
    .node function (.single stored .nil) .null .nil)
    .null .nil

end Forest

namespace Program

theorem flattened_blocks : ∃ d p shown,
    DebugInfo.decode .big (Draft.encodeAll .big (Forest.blocks.drafts 0)) none = .ok d ∧
      build d .default = .ok (p, shown) ∧
      (p.functions.toList.map fun f => (f.1, f.2.locals.map Local.offset)) =
        [(12, [36, 78, 106, 122]), (138, [150])] ∧
      (∀ e ∈ d.functionEntries, ∃ f, p.functions[e.offset]? = some f ∧ f.DeclaredIn e) ∧
      (∀ (o : UInt32) f, p.functions[o]? = some f →
        (f.locals.map Local.offset).Pairwise (· < ·)) ∧
      ∀ (o o' : UInt32) f f', p.functions[o]? = some f → p.functions[o']? = some f' → o ≠ o' →
        ∀ l ∈ f.locals, ∀ l' ∈ f'.locals, l.offset ≠ l'.offset := by
  have hsize : (Draft.encodeAll .big (Forest.blocks.drafts 0)).length < 2 ^ 32 := by
    decide +kernel
  obtain ⟨d, p, shown, hd, hp, hview⟩ := exists_of_outcome (show
    outcome .big (Draft.encodeAll .big (Forest.blocks.drafts 0)) (fun p =>
        p.functions.toList.map fun f => (f.1, f.2.locals.map Local.offset)) =
      some [(12, [36, 78, 106, 122]), (138, [150])] by
    decide +kernel)
  obtain ⟨-, hwalked, hforest⟩ := flattened_of_build hd hp
  exact ⟨d, p, shown, hd, hp, hview, hwalked hsize, hforest Forest.blocks rfl hsize⟩

end Program

end DwarfOne
