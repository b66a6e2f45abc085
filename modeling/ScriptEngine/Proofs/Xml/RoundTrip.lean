import Mathlib.Data.List.Nodup
import ScriptEngine.Proofs.Containers
import ScriptEngine.Proofs.Equality.Form
import ScriptEngine.Proofs.Xml.Reading

/-!
# Values survive a document

A document is written from a value by going down into it, and read by a machine with a stack of open
elements. What they have in common is the contents of elements, which are a tree: `c.Describes s v`
holds if the value `v` is that tree in the state `s`. The trees that a document gives back are
`Content.Faithful`: an element with an empty text, or with blanks around it, is read as something
else, and so is an array of less than two items.

The writer and the reader are compared by what reading a text does, and not by the text
(`ReadsElement`). So one induction over the tree (`writeWithin_reads`) follows the writer and proves
of each text that it writes how it is read; the invariant on the stack is that an element has just
the parts written so far (`entries_adoptAll_children`).
-/

namespace ScriptEngine.Xml

namespace Content

/-! ### Trees and values -/

/-- What a document gives back: nothing, a text that is not empty and has no blanks at its ends, or
at least one part. The parts have names of elements, all different, and consist of one such content
or of several. -/
inductive Faithful : Content → Prop
  | nothing : Faithful .nothing
  | text {text : String} : text ≠ "" → Text.trim text.toList = text.toList → Faithful (.text text)
  | parts {members : List (String × Content)} : members ≠ [] → (members.map (·.1)).Nodup →
      (∀ m ∈ members, isName m.1.toList = true) →
      (∀ m ∈ members, ∀ items, m.2 = .several items → 2 ≤ items.length) →
      (∀ m ∈ members, ∀ c ∈ m.2.elements, Faithful c) → Faithful (.parts members)

/-- The value is nil, the text, a hash with the parts as its entries in their order, or an array of
the items. -/
inductive Describes (s : State) : Content → Value → Prop
  | nothing : Describes s .nothing .nil
  | text (text : String) : Describes s (.text text) (.text text)
  | parts {members : List (String × Content)} {r : Ref .hash} {m : Assoc Key Value} :
      s.heap.hashes.get? r = some m → m.keys = members.map (.text ·.1) →
      List.Forall₂ (Describes s) (members.map (·.2)) m.values → Describes s (.parts members) (.hash r)
  | several {items : List Content} {r : Ref .array} {vs : Array Value} :
      s.heap.arrays.get? r = some vs → List.Forall₂ (Describes s) items vs.toList →
      Describes s (.several items) (.array r)

/-- A faithful content is one element, not several. -/
theorem Faithful.ne_several {c : Content} (h : c.Faithful) (items : List Content) :
    c ≠ .several items := by
  cases h <;> nofun

/-- What holds of several contents if it holds of each, holds of a part if it does of its
elements. -/
theorem of_elements {P : Content → Prop}
    (several : ∀ items, (∀ c ∈ items, P c) → P (.several items)) {c : Content}
    (h : ∀ d ∈ c.elements, P d) : P c := by
  cases c with
  | several items => exact several items h
  | _ => exact h _ List.mem_cons_self

/-- Induction over what a tree describes. -/
theorem Describes.induct {s : State} {P : Content → Value → Prop} (nothing : P .nothing .nil)
    (text : ∀ text, P (.text text) (.text text))
    (parts : ∀ {members r m}, s.heap.hashes.get? r = some m → m.keys = members.map (.text ·.1) →
      List.Forall₂ (fun c v => Describes s c v ∧ P c v) (members.map (·.2)) m.values →
      P (.parts members) (.hash r))
    (several : ∀ {items r vs}, s.heap.arrays.get? r = some vs →
      List.Forall₂ (fun c v => Describes s c v ∧ P c v) items vs.toList →
      P (.several items) (.array r))
    {c : Content} {v : Value} (h : c.Describes s v) : P c v :=
  @Describes.rec s (fun c v _ => P c v)
    (fun cs vs _ => List.Forall₂ (fun c v => Describes s c v ∧ P c v) cs vs)
    nothing text (fun hr hkeys _ ih => parts hr hkeys ih) (fun hr _ ih => several hr ih)
    .nil (fun hc _ ihc ih => .cons ⟨hc, ihc⟩ ih) c v h

end Content

/-! ### The stack -/

/-- The elements inside of an element, in their order. -/
def children (members : List (String × Content)) : List (List Char × Content) :=
  members.flatMap fun m => m.2.elements.map (m.1.toList, ·)

/-- The elements of a part become the part. -/
theorem entries_adoptAll_elements {e : Open} {k : String} {front : List (String × Content)}
    {c : Content} (hk : k ∉ front.map (·.1)) (he : e.parts.entries = front)
    (hseveral : ∀ items, c = .several items → 2 ≤ items.length)
    (hne : ∀ d ∈ c.elements, ∀ items, d ≠ .several items) :
    (e.adoptAll (c.elements.map (k.toList, ·))).parts.entries = front ++ [(k, c)] := by
  cases c with
  -- the first item is put in alone, the second makes an array of it, and the others are added
  | several items =>
    match items, hseveral items rfl with
    | first :: second :: more, _ =>
      have hfirst := entries_adopt_first hk he first
      have hsecond := entries_adopt_second hk hfirst (hne first List.mem_cons_self) second
      exact entries_adoptAll_more hk hsecond more
  | _ => exact entries_adopt_first hk he _

/-- An element that takes in children has just the parts that they come from. -/
theorem entries_adoptAll_children {members : List (String × Content)} {e : Open}
    {front : List (String × Content)} (he : e.parts.entries = front)
    (hnodup : ((front ++ members).map (·.1)).Nodup)
    (hseveral : ∀ m ∈ members, ∀ items, m.2 = .several items → 2 ≤ items.length)
    (hne : ∀ m ∈ members, ∀ d ∈ m.2.elements, ∀ items, d ≠ .several items) :
    (e.adoptAll (children members)).parts.entries = front ++ members := by
  -- on the members, with those before already in front
  induction members generalizing e front with
  | nil => rw [List.append_nil, ← he]; rfl
  | cons m members ih =>
    obtain ⟨hseveral, hseverals⟩ := List.forall_mem_cons.mp hseveral
    obtain ⟨hne, hnes⟩ := List.forall_mem_cons.mp hne
    have hsplit : front ++ m :: members = (front ++ [m]) ++ members := by simp
    -- the name of the member is not among those before
    have hk : m.1 ∉ front.map (·.1) := by
      rw [List.map_append, List.map_cons] at hnodup
      intro hmem
      exact (List.disjoint_of_nodup_append hnodup) hmem List.mem_cons_self
    have hpart := entries_adoptAll_elements hk he hseveral hne
    rw [hsplit] at hnodup ⊢
    have hrest := ih hpart hnodup hseverals hnes
    rwa [← Open.adoptAll_append] at hrest

/-- An element with parts and without text holds its parts. -/
theorem finish_of_entries {e : Open} {members : List (String × Content)} (htext : e.text = [])
    -- the first branch of `finish` is taken, since there are parts; then there is no text
    (he : e.parts.entries = members) (hne : members ≠ []) : e.finish = .parts members := by
  have hnonempty : ¬ e.parts.isEmpty = true := by
    rw [Assoc.isEmpty, he, List.isEmpty_iff]
    exact hne
  have hempty : (String.ofList (Text.trim e.text)).isEmpty = true := by
    rw [htext]
    rfl
  rw [Open.finish, if_neg hnonempty, if_pos hempty, he]

/-! ### Writing -/

section

variable {s : State}

/-- A text that is written by some things one after another is read as all of their elements. -/
theorem exists_concat {α : Type} {write : α → Except String (List Char)}
    {cs : List (List (List Char × Content))} {as : List α}
    (h : List.Forall₂ (fun c a => ∃ text, write a = .ok text ∧ ReadsChildren c text) cs as) :
    ∃ text, concat write as = .ok text ∧ ReadsChildren cs.flatten text := by
  -- on the items: what each of them writes is read after what those before wrote
  induction h with
  | nil => exact ⟨_, rfl, .nil⟩
  | cons hc _ ih =>
    obtain ⟨text, hwrite, hread⟩ := hc
    obtain ⟨rest, hwrites, hreads⟩ := ih
    refine ⟨text ++ rest, ?_, hread.append hreads⟩
    rw [concat, hwrite, hwrites]
    rfl

/-- Nil is written as an element without contents. -/
theorem writeWithin_nil {name : String} (hname : isName name.toList = true) (fuel : ℕ) :
    writeWithin s fuel name .nil = .ok (emptyElement name.toList) := by
  rw [writeWithin.eq_def]
  dsimp only
  rw [hname]
  rfl

/-- A text is written with its special characters escaped. -/
theorem writeWithin_text {name : String} (hname : isName name.toList = true) (fuel : ℕ)
    (text : String) :
    writeWithin s fuel name (.text text) = .ok (element name.toList (escape text.toList)) := by
  rw [writeWithin.eq_def]
  dsimp only
  rw [hname]
  rfl

/-- The text of an entry of a hash. -/
def writeEntry (s : State) (fuel : ℕ) (e : Key × Value) : Except String (List Char) :=
  match sequence? s e.2 with
  | some items => concat (writeWithin s fuel e.1.toText) items
  | none => writeWithin s fuel e.1.toText e.2

/-- A hash is an element whose contents are those of its entries. -/
theorem writeWithin_hash {name : String} (hname : isName name.toList = true) (fuel : ℕ)
    {r : Ref .hash} {m : Assoc Key Value} (hr : s.heap.hashes.get? r = some m) :
    writeWithin s (fuel + 1) name (.hash r) =
      (concat (writeEntry s fuel) m.entries).map (element name.toList) := by
  rw [writeWithin.eq_def]
  dsimp only
  rw [hname, hr]
  rfl

/-- The value is written as an element that is read as the tree. -/
def WritesElement (s : State) (c : Content) : Prop :=
  ∀ {fuel : ℕ} {name : String} {v : Value}, isName name.toList = true → c.Describes s v →
    s.Nested fuel v →
    ∃ text, writeWithin s fuel name v = .ok text ∧ ReadsElement name.toList c text

/-- An entry of a hash is written as the elements of its part. -/
theorem exists_writeEntry {fuel : ℕ} {name : String} {c : Content} {v : Value}
    (hname : isName name.toList = true) (hwrites : ∀ d ∈ c.elements, WritesElement s d)
    (hc : c.Describes s v) (hnested : s.Nested fuel v) :
    ∃ text, writeEntry s fuel (.text name, v) = .ok text ∧
      ReadsChildren (c.elements.map (name.toList, ·)) text := by
  have single : ∀ {d}, WritesElement s d → d.Describes s v →
      ∃ text, writeWithin s fuel name v = .ok text ∧ ReadsChildren [(name.toList, d)] text := by
    intro d hwrites hd
    obtain ⟨text, hwrite, hread⟩ := hwrites hname hd hnested
    exact ⟨text, hwrite, hread.child⟩
  cases hc with
  | @several items r vs hr hitems =>
    -- an array is written item by item, each as an element of the same name
    obtain ⟨fuel, rfl⟩ := hnested.exists_succ
    have hsequence : sequence? s (.array r) = some vs.toList := by
      rw [sequence?, State.items?, hr, Option.getD_some]
    have hall : List.Forall₂ (fun c w => ∃ text, writeWithin s (fuel + 1) name w = .ok text ∧
        ReadsChildren c text) (items.map fun d => [(name.toList, d)]) vs.toList := by
      rw [List.forall₂_map_left_iff]
      refine (forall₂_mem hitems).imp fun d w ⟨hd, hw, hdw⟩ => ?_
      -- an item is nested less deeply than the array, so surely no more
      have hless : s.Nested (fuel + 1) w := (hnested.of_holds (.array hr) w hw).succ
      obtain ⟨text, hwrite, hread⟩ := hwrites d hd hname hdw hless
      exact ⟨text, hwrite, hread.child⟩
    obtain ⟨text, hwrite, hread⟩ := exists_concat hall
    refine ⟨text, ?_, ?_⟩
    · rw [writeEntry, hsequence]
      exact hwrite
    · have hflat : (items.map fun d => [(name.toList, d)]).flatten =
          items.map (name.toList, ·) := by
        rw [← List.flatMap_def, ← List.map_eq_flatMap]
      rwa [hflat] at hread
  | nothing => exact single (hwrites _ List.mem_cons_self) .nothing
  | text t => exact single (hwrites _ List.mem_cons_self) (.text t)
  | parts hr hkeys hvalues => exact single (hwrites _ List.mem_cons_self) (.parts hr hkeys hvalues)

/-- **Every faithful value is written as an element that is read as what it was.** -/
theorem writeWithin_reads {c : Content} (hc : c.Faithful) : WritesElement s c := by
  -- on the tree: a hash writes its members, of which each is one element or several
  induction hc with
  | nothing =>
    intro fuel name v hname hv _
    cases hv
    exact ⟨_, writeWithin_nil hname fuel, readsElement_nothing hname⟩
  | text hne htrim =>
    intro fuel name v hname hv _
    cases hv
    exact ⟨_, writeWithin_text hname fuel _, readsElement_text hname hne htrim⟩
  | @parts members hne hnodup hnames hseveral hfaithful ih =>
    intro fuel name v hname hv hnested
    cases hv with
    | @parts _ r m hr hkeys hvalues =>
      obtain ⟨fuel, rfl⟩ := hnested.exists_succ
      have hall : List.Forall₂ (fun c e => ∃ text, writeEntry s fuel e = .ok text ∧
          ReadsChildren c text) (members.map fun m => m.2.elements.map (m.1.toList, ·))
          m.entries := by
        rw [List.forall₂_map_left_iff]
        refine (forall₂_mem (forall₂_entries_iff.mpr ⟨hkeys, hvalues⟩)).imp ?_
        rintro p ⟨_, w⟩ ⟨hp, hw, rfl, hpw⟩
        have hless : s.Nested fuel w :=
          hnested.of_holds (.hash hr) w (List.mem_map_of_mem (f := (·.2)) hw)
        exact exists_writeEntry (hnames p hp) (ih p hp) hpw hless
      obtain ⟨body, hwrite, hread⟩ := exists_concat hall
      refine ⟨element name.toList body, ?_, readsElement_children hname hread ?_⟩
      · rw [writeWithin_hash hname fuel hr, hwrite]
        rfl
      -- the stack holds the parts when the end of the element is read
      · have hparts := entries_adoptAll_children (e := ⟨name.toList, .empty, []⟩) rfl hnodup
          hseveral fun m hm d hd => (hfaithful m hm d hd).ne_several
        exact finish_of_entries (Open.name_adoptAll _ _).2 hparts hne

end

/-! ### Making values -/

/-- What a value describes does not change while the collections it is made of are kept. -/
theorem Content.Describes.keeps {s t : State} {c : Content} {v : Value} (h : c.Describes s v)
    (hkeeps : Keeps s t) : c.Describes t v := by
  refine Content.Describes.induct (P := Content.Describes t) .nothing .text ?parts ?several h
  case parts =>
    intro members r m hr hkeys hvalues
    exact .parts (hkeeps.hashes hr) hkeys (hvalues.imp fun _ _ h => h.2)
  case several =>
    intro items r vs hr hitems
    exact .several (hkeeps.arrays hr) (hitems.imp fun _ _ h => h.2)

/-- Several contents are made an array of their values. -/
theorem makes_several {items : List Content}
    (h : ∀ c ∈ items, Makes (toValue c) (Content.Describes · c)) :
    Makes (toValue (.several items)) (Content.Describes · (.several items)) := by
  intro s
  obtain ⟨v, t, hmake, ⟨r, vs, rfl, hr, hitems⟩, hst⟩ :=
    makes_array (D := Content.Describes) itemValues rfl (fun _ _ => rfl)
      (fun _ => Content.Describes.keeps) h s
  exact ⟨_, t, hmake, .several hr hitems, hst⟩

/-- Every faithful tree is made a value that it describes. -/
theorem makes_of_faithful {c : Content} (hc : c.Faithful) :
    Makes (toValue c) (Content.Describes · c) := by
  -- on the tree, from the parts to the hash that holds them
  induction hc with
  | nothing => exact .pure fun _ => .nothing
  | @text text _ _ => exact .pure fun _ => .text text
  | @parts members _ hnodup _ _ _ ih =>
    intro s
    have hmembers : ∀ m ∈ members, Makes (toValue m.2) (Content.Describes · m.2) := fun m hm =>
      Content.of_elements (fun _ => makes_several) (ih m hm)
    obtain ⟨v, t, hmake, ⟨r, es, rfl, hr, hkeys, hvalues⟩, hst⟩ :=
      makes_hash (D := Content.Describes) memberValues rfl (fun _ _ => rfl)
        (fun _ => Content.Describes.keeps) hnodup hmembers s
    exact ⟨_, t, hmake, .parts hr hkeys hvalues, hst⟩

/-! ### Values of one tree -/

section

variable {s : State}

/-- There are no doubles in such values, and they do not go down for ever. -/
theorem Content.Describes.floatFree {c : Content} {v : Value} (h : c.Describes s v) :
    s.FloatFree v := by
  refine Content.Describes.induct (P := fun _ v => s.FloatFree v) (.of_contents_nil rfl nofun)
    (fun _ => .of_contents_nil rfl nofun) ?parts ?several h
  case parts =>
    intro members r m hr _ hvalues
    exact .of_holds (.hash hr) (forall_mem_of_forall₂ hvalues)
  case several =>
    intro items r vs hr hitems
    exact .of_holds (.array hr) (forall_mem_of_forall₂ hitems)

/-- Values that one tree describes have one form. -/
theorem Content.Describes.formWithin_eq {c : Content} {v : Value} (hv : c.Describes s v) :
    ∀ (n : ℕ) (w : Value), c.Describes s w → s.Nested n v → s.Nested n w →
      s.formWithin n v = s.formWithin n w := by
  refine Content.Describes.induct (P := fun c v => ∀ n w, Describes s c w → s.Nested n v →
    s.Nested n w → s.formWithin n v = s.formWithin n w) ?_ ?_ ?parts ?several hv
  · rintro n w ⟨⟩ _ _
    rfl
  · rintro text n w ⟨⟩ _ _
    rfl
  case parts =>
    intro members r m hr hkeys hvalues n w hw hnv hnw
    cases hw with
    | @parts _ q m' hq hkeys' hvalues' =>
      exact State.formWithin_hash_eq hr hq hkeys hkeys' hvalues hvalues' hnv hnw
        fun hv hw => hv.2 _ _ hw
  case several =>
    intro items r vs hr hitems n w hw hnv hnw
    cases hw with
    | @several _ q ws hq hitems' =>
      exact State.formWithin_array_eq hr hq hitems hitems' hnv hnw fun hv hw => hv.2 _ _ hw

/-- Values that one tree describes are equal. -/
theorem Content.Describes.equal {c : Content} {v w : Value} (hv : c.Describes s v)
    (hw : c.Describes s w) : s.equal v w = true := by
  have hform : s.form v = s.form w :=
    hv.formWithin_eq _ w hw (State.nested_depth hv.floatFree.acc)
      (State.nested_depth hw.floatFree.acc)
  exact (State.equal_iff_form_eq hv.floatFree hw.floatFree).mpr hform

end

/-! ### There and back -/

/-- **A document gives back the value it was written from.** Let `v` be a value that a faithful tree
`c` describes: nil, a text that is not empty and has no blanks at its ends, or a hash that is not
empty, of which the keys are distinct names of elements, each with one such value or an array of two
or more. Then `xml.marshal` succeeds for it and any root name, and in any state `xml.unmarshal` makes
of the text a hash with that name alone. Under it is a value that the same tree describes: its hashes
have their keys in the same order, and their arrays the same items in order. It is equal to `v` as
long as `v` is what it was. -/
theorem unmarshal_marshal {s : State} {c : Content} {v : Value} {root : String} (hc : c.Faithful)
    (hv : c.Describes s v) (hroot : isName root.toList = true) (E : Engine) (site site' : CallSite) :
    ∃ text, Builtin.run E site [v, .text root] .xmlMarshal s = .done (.text text) s ∧
      ∀ s', ∃ r w t, Builtin.run E site' [.text text] .xmlUnmarshal s' = .done (.hash r) t ∧
        t.heap.hashes.get? r = some ⟨[(.text root, w)]⟩ ∧ c.Describes t w ∧
        (c.Describes s' v → t.equal w v = true) := by
  -- the writer goes down as far as the heap allows, which is enough
  have hnested : s.Nested (2 * s.heap.depth + 1) v := by
    refine (State.nested_depth hv.floatFree.acc).mono ?_
    omega
  obtain ⟨text, hwrite, hread⟩ := writeWithin_reads hc hroot hv hnested
  have hmarshal : ofValue s root v = .ok (String.ofList text) := by
    rw [ofValue, hwrite]
    rfl
  refine ⟨String.ofList text, ?marshal, fun s' => ?unmarshal⟩
  case marshal =>
    have harity : site.oneOf [1, 2] [v, .text root] s = .done () s := rfl
    have hname : site.textArg [v, .text root] 1 s = .done root s := rfl
    have hdocument : Eval.gets (fun s => ofValue s root v) s =
        .done (.ok (String.ofList text)) s := congrArg (Run.done · s) hmarshal
    -- a name for the root is given, so both arguments are checked
    refine (Eval.bind_of_done harity _).trans ((Eval.bind_of_done hname _).trans ?_)
    exact (Eval.bind_of_done hdocument _).trans rfl
  case unmarshal =>
    obtain ⟨w, t, hmake, hw, hkeeps⟩ := makes_of_faithful hc s'
    obtain ⟨r, u, hnew, hr, htu⟩ := newHash_keeps (.ofList [(.text root, w)]) t
    -- making the outer hash keeps what was made for it
    refine ⟨r, w, u, ?_, hr, hw.keeps htu, fun hv' => ?_⟩
    · have harity : site'.exactly 1 [.text (String.ofList text)] s' = .done () s' := rfl
      have htext : site'.textArg [.text (String.ofList text)] 0 s' =
          .done (String.ofList text) s' := rfl
      refine (Eval.bind_of_done harity _).trans ((Eval.bind_of_done htext _).trans ?_)
      rw [String.toList_ofList, hread.read_eq]
      dsimp only
      rw [documentValue, Eval.bind_of_done hmake, String.ofList_toList, hnew]
    · exact (hw.keeps htu).equal ((hv'.keeps hkeeps).keeps htu)

/-- A text with a reference, two elements of one name, and one without contents. -/
def notes : Content :=
  .parts [("name", .text "a < b"), ("tags", .several [.text "x", .text "y"]), ("note", .nothing)]

/-- A state with the hash of such notes. -/
def withNotes : State :=
  { State.blank with
    heap := { State.blank.heap with
      arrays := ⟨#[#[.text "x", .text "y"]]⟩
      hashes := ⟨#[.ofList [(.text "name", .text "a < b"), (.text "tags", .array ⟨0⟩),
        (.text "note", .nil)]]⟩ } }

/-- The notes, as the contents of an element `doc`. -/
theorem unmarshal_marshal_notes :
    ∃ text, Builtin.run (.level 1) ⟨State.root, .unknown, "marshal"⟩ [.hash ⟨0⟩, .text "doc"]
        .xmlMarshal withNotes = .done (.text text) withNotes ∧
      ∀ s', ∃ r w t,
        Builtin.run (.level 1) ⟨State.root, .unknown, "unmarshal"⟩ [.text text] .xmlUnmarshal s' =
          .done (.hash r) t ∧
        t.heap.hashes.get? r = some ⟨[(.text "doc", w)]⟩ ∧ notes.Describes t w ∧
        (notes.Describes s' (.hash ⟨0⟩) → t.equal w (.hash ⟨0⟩) = true) := by
  have text : ∀ {text : String}, text ≠ "" → Text.trim text.toList = text.toList →
      ∀ c ∈ (Content.text text).elements, c.Faithful := fun hne htrim =>
    List.forall_mem_singleton.mpr (.text hne htrim)
  have hfaithful : notes.Faithful := by
    refine .parts nofun (by decide) (by decide) ?several ?elements
    case several =>
      refine List.forall_mem_cons.mpr ⟨nofun, List.forall_mem_cons.mpr ⟨?_, ?_⟩⟩
      · rintro _ ⟨⟩
        exact Nat.le_refl 2
      · exact List.forall_mem_singleton.mpr nofun
    case elements =>
      refine List.forall_mem_cons.mpr ⟨text (by decide) rfl, List.forall_mem_cons.mpr ⟨?_, ?_⟩⟩
      · exact List.forall_mem_cons.mpr ⟨.text (by decide) rfl, text (by decide) rfl⟩
      · exact List.forall_mem_singleton.mpr (List.forall_mem_singleton.mpr .nothing)
  have hdescribes : notes.Describes withNotes (.hash ⟨0⟩) :=
    .parts rfl rfl (.cons (.text _) (.cons (.several rfl (.cons (.text _) (.cons (.text _) .nil)))
      (.cons .nothing .nil)))
  exact unmarshal_marshal hfaithful hdescribes (by decide) _ _ _

end ScriptEngine.Xml
