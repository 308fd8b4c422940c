import EdgeOrchestrator.Wire.Exchanges

/-!
# Descriptors from other versions of the program

The descriptor and the capabilities inside it have fields with a default, so that nodes of different
versions know each other. A newer sender writes fields that this version does not have, an older one
leaves out those with a default, and either may write the fields in another order. The loop reads
the same descriptor from all of them. From an object without one of the original fields or with a
field twice it reads none, and likewise when the capabilities inside it are such an object.
-/

namespace EdgeOrchestrator.Wire

open Codecs Node P2P Serde

section Structs

variable {Value Parts : Type} (fields : Fields String Json Parts) (parts : Value ≃ Parts)

/-- The members that another version may write for a struct. -/
def OtherVersion (value : Value) (members : List (String × Json)) : Prop :=
  Relation.ReflTransGen (Rewrites fields (parts value)) (fields.encode (parts value)) members

variable {fields parts} {hnodup : fields.names.Nodup} {value : Value}
  {members : List (String × Json)}

theorem stands_of_otherVersion (hvalid : fields.Valid (parts value))
    (hversion : OtherVersion fields parts value members) :
    (struct fields hnodup parts).Stands (.object members) value :=
  stands_of_presents ((presents_encode hnodup hvalid).reflTransGen hnodup hversion)

/-- One of the fields without a default is missing, or one of the fields is there twice. -/
def Broken (names original : List String) (members : List (String × Json)) : Prop :=
  (∃ name ∈ original, name ∉ members.map Prod.fst) ∨
    ∃ name ∈ names, 2 ≤ (members.map Prod.fst).count name

/-- A struct is not read from a broken object. -/
theorem decode_eq_none_of_broken {original : List String}
    (hshown : ∀ name ∈ original, ∀ view parts, fields.Shows view parts → view name ≠ none)
    (hbroken : Broken fields.names original members) :
    (struct fields hnodup parts).decode (.object members) = none := by
  cases hdecode : (struct fields hnodup parts).decode (.object members) with
  | none => rfl
  | some other =>
    obtain ⟨view, hview, hshows⟩ := (struct fields hnodup parts).decode_eq_some_iff.mp hdecode
    obtain ⟨honce, hview⟩ := Option.ite_none_right_eq_some.mp hview
    obtain rfl : _ = view := Option.some.inj hview
    rcases hbroken with ⟨name, hname, hlacks⟩ | ⟨name, hname, htwice⟩
    · exact absurd (lookup_of_notMem hlacks) (hshown name hname _ _ hshows)
    · have hcount := honce name hname
      rw [List.count, List.countP_map] at htwice
      exact absurd (htwice.trans hcount) (by decide)

end Structs

section Descriptors

variable {text : SerdeReader} {forms : TextForms} {descriptor : NodeDescriptor}
  {members : List (String × Json)}

/-- The fields of the first version, which have no default. -/
def originalFields : List String :=
  ["node_id", "node_type", "os", "capabilities", "advertised_addresses", "current_assigned_roles",
    "started_at"]

theorem ne_none_of_mem_originalFields {name : String} (hname : name ∈ originalFields) :
    ∀ view parts, (descriptorFields forms).Shows view parts → view name ≠ none := by
  intro view parts hshows
  simp only [originalFields, List.mem_cons, List.not_mem_nil, or_false] at hname
  rcases hname with rfl | rfl | rfl | rfl | rfl | rfl | rfl
  · exact Fields.ne_none_of_shows_required hshows
  · exact Fields.ne_none_of_shows_required hshows.2
  · exact Fields.ne_none_of_shows_required hshows.2.2
  · exact Fields.ne_none_of_shows_required hshows.2.2.2
  · exact Fields.ne_none_of_shows_required hshows.2.2.2.2
  · exact Fields.ne_none_of_shows_required hshows.2.2.2.2.2
  · exact Fields.ne_none_of_shows_required hshows.2.2.2.2.2.2

/-- The fields of the first version of the capabilities. -/
def originalCapabilities : List String :=
  ["storage", "gpu_acceleration", "runtimes", "max_memory_mb", "cpu_cores"]

theorem ne_none_of_mem_originalCapabilities {name : String} (hname : name ∈ originalCapabilities) :
    ∀ view parts, capabilitiesFields.Shows view parts → view name ≠ none := by
  intro view parts hshows
  simp only [originalCapabilities, List.mem_cons, List.not_mem_nil, or_false] at hname
  rcases hname with rfl | rfl | rfl | rfl | rfl
  · exact Fields.ne_none_of_shows_required hshows
  · exact Fields.ne_none_of_shows_required hshows.2
  · exact Fields.ne_none_of_shows_required hshows.2.2
  · exact Fields.ne_none_of_shows_required hshows.2.2.2
  · exact Fields.ne_none_of_shows_required hshows.2.2.2.2

/-- A descriptor is not read when its capabilities are not. -/
theorem decode_eq_none_of_capabilities {document : Json}
    (hmem : ("capabilities", document) ∈ members) (hnone : capabilities.decode document = none) :
    (nodeDescriptor forms).decode (.object members) = none := by
  cases hdecode : (nodeDescriptor forms).decode (.object members) with
  | none => rfl
  | some other =>
    obtain ⟨view, hview, hshows⟩ := (nodeDescriptor forms).decode_eq_some_iff.mp hdecode
    obtain ⟨honce, hview⟩ := Option.ite_none_right_eq_some.mp hview
    obtain rfl : _ = view := Option.some.inj hview
    have hfield : FieldShows none capabilities (members.lookup "capabilities") _ := hshows.2.2.2.1
    rw [lookup_of_mem hmem (honce "capabilities" (by simp [descriptorFields]))] at hfield
    cases hfield with
    | present hstands => cases hnone.symm.trans (capabilities.decode_eq_some_iff.mpr hstands)

variable (forms) in
/-- The members, or those of the capabilities among them, are broken. -/
def BrokenDescriptor (members : List (String × Json)) : Prop :=
  Broken (descriptorFields forms).names originalFields members ∨
    ∃ inner, ("capabilities", .object inner) ∈ members ∧
      Broken capabilitiesFields.names originalCapabilities inner

theorem decode_eq_none_of_brokenDescriptor (hbroken : BrokenDescriptor forms members) :
    (nodeDescriptor forms).decode (.object members) = none := by
  rcases hbroken with hbroken | ⟨inner, hmem, hbroken⟩
  · exact decode_eq_none_of_broken (fun _ ↦ ne_none_of_mem_originalFields) hbroken
  · exact decode_eq_none_of_capabilities hmem
      (decode_eq_none_of_broken (fun _ ↦ ne_none_of_mem_originalCapabilities) hbroken)

/-- What the loop makes of an answer, by what is read from the text in it. -/
theorem handleSwarmEvent_descriptorResponse (selfPeerId peerId : PeerId)
    (selfDescriptor : NodeDescriptor) (provider : Option (Hash → Option Bytes)) {json : String}
    {document : Json} (hparse : text.parse (utf8 json) = .ok document) :
    ((swarmContext text forms selfPeerId selfDescriptor provider).handleSwarmEvent
      (.behaviour (.descriptorExchange (.response peerId ⟨json⟩)))).1 =
        (((nodeDescriptor forms).decode document).map
          (Event.descriptorReceived peerId)).toList := by
  change (((text.fromSlice (nodeDescriptor forms) (utf8 json)).toOption).map
    (Event.descriptorReceived peerId)).toList = _
  simp only [SerdeReader.fromSlice, hparse]
  cases (nodeDescriptor forms).decode document <;> rfl

/-- The loop reads the descriptor from the text of any other version, and the versions of the
capabilities inside it are free as well. It reads nothing from an object that lacks an original field
or has a field twice, there or in the capabilities. -/
theorem descriptor_of_otherVersion (text : SerdeReader) (selfPeerId peerId : PeerId)
    (selfDescriptor : NodeDescriptor) (provider : Option (Hash → Option Bytes))
    (hvalid : (nodeDescriptor forms).Valid descriptor)
    (hversion : OtherVersion (descriptorFields forms) descriptorParts descriptor members) :
    let answer (json : String) :=
      ((swarmContext text forms selfPeerId selfDescriptor provider).handleSwarmEvent
        (.behaviour (.descriptorExchange (.response peerId ⟨json⟩)))).1
    (∀ json, text.parse (utf8 json) = .ok (.object members) →
      answer json = [.descriptorReceived peerId descriptor]) ∧
    (∀ inner, OtherVersion capabilitiesFields capabilitiesParts descriptor.capabilities inner →
      OtherVersion (descriptorFields forms) descriptorParts descriptor
        (("capabilities", .object inner) :: without members "capabilities")) ∧
    ∀ json broken, text.parse (utf8 json) = .ok (.object broken) →
      BrokenDescriptor forms broken → answer json = [] := by
  intro answer
  refine ⟨fun json hparse ↦ ?_, fun inner hinner ↦ ?_, fun json broken hparse hbroken ↦ ?_⟩
  · have hread := (nodeDescriptor forms).decode_eq_some_iff.mpr
      (stands_of_otherVersion hvalid hversion)
    exact (handleSwarmEvent_descriptorResponse _ _ _ _ hparse).trans (by rw [hread]; rfl)
  · have hcapabilities : capabilities.Stands (.object inner) descriptor.capabilities :=
      stands_of_otherVersion hvalid.2.2.2.1 hinner
    refine hversion.tail (.restate ?_)
    exact Or.inr (Or.inr (Or.inr (Or.inl ⟨rfl, .present hcapabilities⟩)))
  · have hread := decode_eq_none_of_brokenDescriptor hbroken
    exact (handleSwarmEvent_descriptorResponse _ _ _ _ hparse).trans (by rw [hread]; rfl)

end Descriptors

/-- A node that takes no part in the Raft group, as an older version knows it. -/
def olderNode : NodeDescriptor := { plainNode with raftId := none }

/-- What is written for it by a version without raft ids, and with regions. -/
def otherMembers : List (String × Json) :=
  ("region", .string "north") ::
    without ((descriptorFields plainForms).encode (descriptorParts olderNode)) "raft_id"

/-- The same with the operating system twice. -/
def repeatedMembers : List (String × Json) := ("os", .string "Linux") :: otherMembers

theorem descriptor_of_otherVersion_olderNode :
    let answer (members : List (String × Json)) :=
      ((swarmContext (textOf [.object otherMembers, .object repeatedMembers]) plainForms ⟨[3]⟩
        plainNode none).handleSwarmEvent (.behaviour (.descriptorExchange
          (.response ⟨[1]⟩ ⟨compact (.object members)⟩)))).1
    answer otherMembers = [.descriptorReceived ⟨[1]⟩ olderNode] ∧ answer repeatedMembers = [] := by
  intro answer
  have hplain := valid_plainNode
  have hraftId : (option (unsigned 64)).Valid none := by
    intro held hheld
    cases hheld
  have hvalid : (nodeDescriptor plainForms).Valid olderNode :=
    ⟨hplain.1, hplain.2.1, hplain.2.2.1, hplain.2.2.2.1, hplain.2.2.2.2.1, hplain.2.2.2.2.2.1,
      hplain.2.2.2.2.2.2.1, hraftId, trivial⟩
  have habsent :
      (descriptorFields plainForms).Admits (descriptorParts olderNode) "raft_id" none :=
    -- Seven fields stand before it.
    Or.inr <| Or.inr <| Or.inr <| Or.inr <| Or.inr <| Or.inr <| Or.inr <|
      Or.inl ⟨rfl, FieldShows.missing rfl⟩
  have hversion :
      OtherVersion (descriptorFields plainForms) descriptorParts olderNode otherMembers :=
    (Relation.ReflTransGen.single (.leaveOut habsent)).tail (.add (by simp [descriptorFields]))
  have happart : [Json.object otherMembers, .object repeatedMembers].Pairwise Apart :=
    List.pairwise_pair.mpr (by decide +kernel)
  have hbroken : BrokenDescriptor plainForms repeatedMembers :=
    Or.inl (Or.inr ⟨"os", by simp [descriptorFields], by decide +kernel⟩)
  obtain ⟨hread, -, hnone⟩ := descriptor_of_otherVersion
    (textOf [.object otherMembers, .object repeatedMembers]) ⟨[3]⟩ ⟨[1]⟩ plainNode none hvalid
    hversion
  exact ⟨hread _ (readsBack_textOf happart List.mem_cons_self).parses,
    hnone _ _ (readsBack_textOf happart (List.mem_cons_of_mem _ List.mem_cons_self)).parses hbroken⟩

end EdgeOrchestrator.Wire
