import ViewSchema.Proofs.Inference.Result
import ViewSchema.Proofs.Walk.Alike
import ViewSchema.Proofs.Walk.Includer
import ViewSchema.Shape.Schema

/-!
An included template that is not there, one that cannot be read and one that is empty make the same
document. Each of the three gives no nodes and puts the same inclusion on account; only messages,
the components and the mark of a resolved inclusion differ. Every walk that comes to such an
inclusion, over however many others, goes on alike.
-/

namespace ViewSchema

open Template

/-- A file without a single byte. -/
def Content.IsEmpty (content : Content) : Prop := content = .text "" ∨ content = .bytes []

theorem Codec.decode_text_empty (codec : Codec) :
    codec.decode (.text "") = codec.decode (.bytes []) := by
  have hbytes : "".toUTF8.toList = [] := by decide +kernel
  cases codec with
  | utf8 => rfl
  | latin1 | ascii | other _ => simp only [decode, hbytes]

/-- A codec that can read anything reads an empty file as an empty text. -/
theorem Content.IsEmpty.decode {content other : Content} (h : content.IsEmpty) {codec : Codec}
    {s : String} (hother : codec.decode other = .ok s) : codec.decode content = .ok "" := by
  have hbytes : codec.decode (.bytes []) = .ok "" := by
    cases codec with
    | utf8 | latin1 | ascii => rfl
    | other decoder =>
      have hnil : decoder.decode [] = .ok "" := by
        cases other with
        | broken fault => cases hother
        | text _ | bytes _ => exact decoder.decode_nil _ _ (Inference.mapError_eq_ok_iff.mp hother)
      exact Inference.mapError_eq_ok_iff.mpr hnil
  rcases h with rfl | rfl
  · exact codec.decode_text_empty.trans hbytes
  · exact hbytes

/-- Where UTF-8 gives no text, a run is prepared for it. -/
theorem Codec.isForeseen_of_decode_utf8 {content : Content} {fault : FileFault}
    (h : Codec.utf8.decode content = .error fault) : fault.isForeseen := by
  cases content with
  | text _ => cases h
  | broken _ =>
    cases h
    rfl
  | bytes raw =>
    obtain ⟨cause, hcause, rfl⟩ := Inference.mapError_eq_error_iff.mp h
    unfold decodeBytes at hcause
    cases hraw : String.fromUTF8? ⟨raw.toArray⟩ with
    | some s => simp [hraw] at hcause
    | none =>
      obtain rfl : .undecodable = cause := by simpa [hraw] using hcause
      rfl

namespace Files

/-- The second machine has a file at a location where the first has none, and they are the same
otherwise: in their directories and links, in their codecs, and in all that they tell of paths that
lead elsewhere. A path that leads to the location finds the file on the second one alone, or else
the two tell the same of it too. A directory that would be there only for the sake of the file is
one more difference, as other paths may pass through it. -/
structure Adds (l : Location) (absent present : Files) : Prop where
  resolve : ∀ p, present.resolve p = absent.resolve p
  codec? : ∀ name, present.codec? name = absent.codec? name
  isFile : ∀ p, absent.resolve p ≠ .ok l → present.isFile p = absent.isFile p
  content : ∀ p, absent.resolve p ≠ .ok l → present.content p = absent.content p
  lacks : ∀ p, absent.resolve p = .ok l → absent.isFile p ≠ .ok true
  there : ∀ p, absent.resolve p = .ok l → present.isFile p = absent.isFile p ∨
    absent.isFile p = .ok false ∧ present.isFile p = .ok true

/-- The file at a location cannot be read: the system refuses it, or its bytes cannot be decoded. -/
def Unreadable (files : Files) (encoding : String) (l : Location) : Prop :=
  ∀ p, files.resolve p = .ok l → files.isFile p = .ok true →
    ∃ fault, files.read p encoding = .error fault ∧ fault.isForeseen

/-- The file at a location is empty. -/
def Empty (files : Files) (l : Location) : Prop :=
  ∀ p, files.resolve p = .ok l → files.isFile p = .ok true →
    ∃ content, files.content p = .ok content ∧ content.IsEmpty

/-- The file at a location cannot be read, or gives no text. -/
def Textless (files : Files) (encoding : String) (l : Location) : Prop :=
  ∀ p, files.resolve p = .ok l → files.isFile p = .ok true →
    (∃ fault, files.read p encoding = .error fault ∧ fault.isForeseen) ∨
      files.read p encoding = .ok ""

variable {files absent present : Files} {l : Location} {encoding : String}

/-- In the default encoding all that keeps an existing file from being read is foreseen. -/
theorem unreadable_of_read (h : ∀ p, files.resolve p = .ok l → files.isFile p = .ok true →
    ∃ fault, files.read p "utf-8" = .error fault ∧ ∀ message, fault ≠ .path (.improper message)) :
    files.Unreadable "utf-8" l := by
  intro p hresolve hfile
  obtain ⟨fault, hread, hproper⟩ := h p hresolve hfile
  refine ⟨fault, hread, ?_⟩
  unfold Files.read at hread
  split at hread
  · rename_i cause _
    cases hread
    cases cause with
    | system _ => rfl
    | improper message => exact absurd rfl (hproper message)
  · rename_i content _
    rw [files.codec?_utf8] at hread
    dsimp only at hread
    cases hdecode : Codec.utf8.decode content with
    | ok s =>
      rw [hdecode] at hread
      cases hread
    | error cause =>
      rw [hdecode] at hread
      cases hread
      exact Codec.isForeseen_of_decode_utf8 hdecode

theorem Unreadable.textless (h : files.Unreadable encoding l) : files.Textless encoding l :=
  fun p hresolve hfile => .inl (h p hresolve hfile)

/-- A text that was read came through the codec of the encoding. -/
theorem decode_of_read {p : Path} {s : String} (h : files.read p encoding = .ok s) :
    ∃ codec content t, files.codec? encoding = some codec ∧ codec.decode content = .ok t := by
  unfold Files.read at h
  split at h
  · cases h
  rename_i content _
  split at h
  · cases h
  rename_i codec hcodec
  cases hdecode : codec.decode content with
  | error fault =>
    rw [hdecode] at h
    cases h
  | ok t => exact ⟨codec, content, t, hcodec, hdecode⟩

/-- Where anything can be read, an empty file gives the empty text. -/
theorem Empty.textless (h : files.Empty l) {codec : Codec} {content : Content} {t : String}
    (hcodec : files.codec? encoding = some codec) (hdecode : codec.decode content = .ok t) :
    files.Textless encoding l := by
  intro p hresolve hfile
  obtain ⟨blank, hblank, hempty⟩ := h p hresolve hfile
  right
  unfold Files.read
  rw [hblank]
  dsimp only
  rw [hcodec]
  dsimp only
  rw [hempty.decode hdecode]
  rfl

theorem Adds.read (h : Adds l absent present) {p : Path} (hp : absent.resolve p ≠ .ok l)
    (encoding : String) : present.read p encoding = absent.read p encoding := by
  unfold Files.read
  rw [h.content p hp, h.codec?]

end Files

namespace Inference

variable {settings : Settings} {absent present : Files} {l : Location}

theorem read_nil : Template.read [] = .ok { body := [] } := by
  rw [Template.read, scan, Scan.start, Scan.run]
  rfl

/-- What an inclusion for which there is no text leaves: no nodes, and itself on account. -/
def vacantWalk (settings : Settings) (current : Path) (name : String) (bindings : Record)
    (line : Option Int) : Walk (List Shape) :=
  { result := .ok []
    account :=
      { inclusions :=
          [{ template := name, path := Partial.path name current settings, line, bindings }] } }

section Access

variable {files : Files} {chain : List Location} {current : Path} {name : String}

theorem alike_of_vacant {fault? : Option FileFault}
    (h : access files settings chain (Partial.path name current settings) = .vacant fault?)
    (bindings : Record) (line : Option Int) :
    Walk.Alike (nodesOf files settings chain current name bindings line)
      (vacantWalk settings current name bindings line) := by
  rw [nodesOf_of_vacant h]
  exact ⟨rfl, rfl⟩

theorem alike_of_blank {here : Location}
    (h : access files settings chain (Partial.path name current settings) =
      .entered here { body := [] })
    (bindings : Record) (line : Option Int) :
    Walk.Alike (nodesOf files settings chain current name bindings line)
      (vacantWalk settings current name bindings line) := by
  rw [nodesOf_of_entered h]
  exact ⟨rfl, rfl⟩

/-- The access to a file without a text is to no template, or to an empty one. -/
theorem access_of_textless (htextless : files.Textless settings.encoding l) {target : Path}
    (hresolve : files.resolve target = .ok l) (hfile : files.isFile target = .ok true)
    (hfresh : l ∉ chain) :
    (∃ fault?, access files settings chain target = .vacant fault?) ∨
      access files settings chain target = .entered l { body := [] } := by
  rcases htextless target hresolve hfile with ⟨fault, hread, hforeseen⟩ | hread
  · refine .inl ⟨some fault, ?_⟩
    simp [access, hresolve, hfresh, hfile, load_of_read_error hread, hforeseen]
  · refine .inr (access_eq_entered_iff.mpr ⟨⟨hresolve, hfresh, hfile⟩, ?_⟩)
    unfold load
    rw [hread]
    dsimp only
    rw [String.toList_empty, read_nil]
    rfl

end Access

/-- Asking for a template comes to the same on both machines, or there is no text to be had on
either. -/
theorem access_of_adds (h : absent.Adds l present)
    (htextless : present.Textless settings.encoding l) (chain : List Location) (target : Path) :
    access present settings chain target = access absent settings chain target ∨
      (∃ fault?, access absent settings chain target = .vacant fault?) ∧
        ((∃ fault?, access present settings chain target = .vacant fault?) ∨
          ∃ here, access present settings chain target = .entered here { body := [] }) := by
  by_cases hother : absent.resolve target = .ok l
  · by_cases hchain : l ∈ chain
    · left
      simp [access, h.resolve, hother, hchain]
    · rcases h.there target hother with hsame | ⟨hmissing, hpresent⟩
      · left
        have hlacks := h.lacks target hother
        unfold access
        rw [h.resolve, hother, hsame]
        dsimp only
        split
        · rfl
        · split
          · rfl
          · rfl
          · exact absurd ‹_› hlacks
      · right
        refine ⟨⟨none, by simp [access, hother, hchain, hmissing]⟩, ?_⟩
        have hresolve := (h.resolve target).trans hother
        exact (access_of_textless htextless hresolve hpresent hchain).imp_right
          fun hblank => ⟨l, hblank⟩
  · left
    unfold access load
    rw [h.resolve, h.isFile target hother, h.read hother]

/-- What is made of a walk over an included template comes from its nodes, and from the inclusions
it asks for. -/
theorem alike_resolved (inclusion : Inclusion) {walk walk' : Walk (List Shape)}
    (h : Walk.Alike walk walk') :
    Walk.Alike (resolved inclusion walk) (resolved inclusion walk') := by
  unfold resolved
  rw [h.result]
  split
  · exact ⟨rfl, h.asked⟩
  · exact ⟨rfl, congrArg (List.cons _) h.asked⟩

/-- On machines that are the same but for a file without a text, every inclusion ends alike. The
files off the chain become fewer with each inclusion. -/
theorem alike_nodesOf (h : absent.Adds l present)
    (htextless : present.Textless settings.encoding l) (chain : List Location) (current : Path) :
    Site.Related @Walk.Alike (nodesOf absent settings chain current)
      (nodesOf present settings chain current) := by
  induction hn : (offChain absent chain).length using Nat.strongRecOn
    generalizing chain current with
  | ind n ih => ?_
  intro name bindings line
  rcases access_of_adds h htextless chain (Partial.path name current settings) with
    hsame | ⟨⟨fault?, hvacant⟩, hpresent⟩
  · cases haccess : access absent settings chain (Partial.path name current settings) with
    | refused failure =>
      rw [nodesOf_of_refused haccess, nodesOf_of_refused (hsame.trans haccess)]
      exact .refl _
    | vacant fault? =>
      rw [nodesOf_of_vacant haccess, nodesOf_of_vacant (hsame.trans haccess)]
      exact .refl _
    | entered here template =>
      rw [nodesOf_of_entered haccess, nodesOf_of_entered (hsame.trans haccess)]
      have hinner := ih _ (hn ▸ length_offChain_of_entered haccess) (chain ++ [here])
        (Partial.path name current settings) rfl
      exact alike_resolved _ (hinner.statements _ Walk.Alike.congruence template.body [])
  · have hleft := alike_of_vacant hvacant bindings line
    rcases hpresent with ⟨_, hpresent⟩ | ⟨_, hblank⟩
    · exact hleft.trans (alike_of_vacant hpresent bindings line).symm
    · exact hleft.trans (alike_of_blank hblank bindings line).symm

/-- Without the file and with one that has no text, the walk of another template is alike. -/
theorem alike_walk (h : absent.Adds l present) {path : Path} (hpath : absent.resolve path ≠ .ok l)
    (htextless : ∀ codec content t, present.codec? settings.encoding = some codec →
      codec.decode content = .ok t → present.Textless settings.encoding l) :
    Walk.Alike (walk absent settings path) (walk present settings path) := by
  have hload : load present settings path = load absent settings path := by
    unfold load
    rw [h.read hpath]
  have hlocate : locate present path = locate absent path := by
    unfold locate
    rw [h.resolve]
  unfold walk
  rw [hlocate, hload]
  refine (Walk.Alike.refl _).bind fun here => ?_
  cases hresult : load absent settings path with
  | error failure =>
    rw [Walk.ofExcept_error_bind, Walk.ofExcept_error_bind]
    exact .refl _
  | ok template =>
    obtain ⟨text, hread, -⟩ := load_ok (hload.trans hresult)
    obtain ⟨codec, content, t, hcodec, hdecode⟩ := Files.decode_of_read hread
    have hincluder : Site.Related @Walk.Alike (includer absent settings here path)
        (includer present settings here path) :=
      alike_nodesOf h (htextless codec content t hcodec hdecode) [here] path
    refine (Walk.Alike.refl _).bind fun template => Walk.Alike.congruence.bind_pure ?_ _
    exact (hincluder.statements _ Walk.Alike.congruence template.body []).bind fun _ => .refl _

/-- Two inferences fail in the same way, or else give the same document, the same operation, the
same schema and the same inclusions, leaving aside which of these were resolved. -/
def Agree : Except Failure Inference → Except Failure Inference → Prop
  | .error failure, .error failure' => failure = failure'
  | .ok found, .ok found' =>
    found.root = found'.root ∧ found.operation = found'.operation ∧
      found.root.schema = found'.root.schema ∧
      found.inclusions.map Inclusion.asked = found'.inclusions.map Inclusion.asked
  | _, _ => False

theorem agree_of_alike {first second : Files} {path : Path}
    (h : Walk.Alike (walk first settings path) (walk second settings path)) :
    Agree (infer first settings path).1 (infer second settings path).1 := by
  unfold infer
  dsimp only
  rw [h.result]
  cases (walk second settings path).result with
  | error failure => rfl
  | ok found => exact ⟨rfl, rfl, rfl, h.asked⟩

end Inference

namespace Files

/-- The contents but for what is at a location. -/
def without (contents : List (Location × Content)) (l : Location) : List (Location × Content) :=
  contents.filter fun f => f.1 != l

/-- The contents with another one at a location, in place of what is there. -/
def placed (contents : List (Location × Content)) (l : Location) (content : Content) :
    List (Location × Content) :=
  (l, content) :: without contents l

variable {contents : List (Location × Content)} {l m : Location}

theorem lookup_without_self : (without contents l).lookup l = none := by
  rw [List.lookup_eq_none_iff]
  intro f hf
  have hne : (f.1 != l) = true := (List.mem_filter.mp hf).2
  rw [bne_comm] at hne
  exact hne

theorem lookup_placed_self (content : Content) :
    (placed contents l content).lookup l = some content := by
  simp [placed]

theorem lookup_placed_of_ne (content : Content) (h : m ≠ l) :
    (placed contents l content).lookup m = (without contents l).lookup m := by
  have hlookup : (m == l) = false := by simpa using h
  rw [placed, List.lookup_cons, hlookup]

/-- Files that are told by their contents differ in one of them alone. -/
theorem adds_placed (contents : List (Location × Content)) (l : Location) (content : Content) :
    (ofContents (without contents l)).Adds l (ofContents (placed contents l content)) where
  resolve _ := rfl
  codec? _ := rfl
  isFile p hp := by
    have hne : p.location ≠ l := fun h => hp (congrArg Except.ok h)
    simp [ofContents, lookup_placed_of_ne content hne]
  content p hp := by
    have hne : p.location ≠ l := fun h => hp (congrArg Except.ok h)
    simp [ofContents, lookup_placed_of_ne content hne]
  lacks p hp := by
    obtain rfl : p.location = l := Except.ok.inj hp
    simp [ofContents, lookup_without_self]
  there p hp := by
    obtain rfl : p.location = l := Except.ok.inj hp
    simp [ofContents, lookup_without_self, lookup_placed_self]

theorem content_placed {p : Path} (h : p.location = l) (content : Content) :
    (ofContents (placed contents l content)).content p = .ok content := by
  simp [ofContents, h, lookup_placed_self]

end Files

namespace Inference

def postPath : Path := .ofString "/views/post.json.jbuilder"

def userPath : Path := .ofString "/views/users/_user.json.jbuilder"

/-- A post that includes its author as a member and again for each of its comments, by way of a
template that includes the author in turn. -/
def authoredPost : List (Location × Content) :=
  [(postPath.location,
      .text "json.partial! 'users/user'\njson.comments @comments, partial: 'comment'\n"),
    ((Path.ofString "/views/_comment.json.jbuilder").location,
      .text "json.author do\n  json.partial! 'users/user', of: self\nend\n"),
    (userPath.location, .text "json.name 1\n")]

end Inference
end ViewSchema
