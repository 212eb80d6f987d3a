import ClassScript.Text.CharSet

/-!
# Case Mappings of Single Characters

Most mappings shift a code point by a fixed amount and come in runs; `CaseRun` is one such run.
The remaining mappings give several characters.
-/

namespace ClassScript

namespace Text

structure CaseRun where
  first : Nat
  last : Nat
  stride : Nat
  shift : Int

def CaseRun.at? (r : CaseRun) (n : Nat) : Option Nat :=
  if r.first ≤ n && n ≤ r.last && (n - r.first) % r.stride == 0 then
    some (n + r.shift).toNat
  else none

/-- The runs from a code point on. A run is given by its distance from the one before, its number
of steps, its stride, and twice its shift, with one more for a shift downwards. -/
def runsFrom (start : Nat) : List Nat → List CaseRun
  | gap :: steps :: stride :: shift :: rest =>
    let first := start + gap
    let amount : Int := if shift % 2 = 0 then shift / 2 else -(shift / 2)
    ⟨first, first + steps * stride, stride, amount⟩ :: runsFrom first rest
  | _ => []

def expansionsFrom (start : Nat) : List Nat → List (Nat × List Nat)
  | gap :: a :: b :: c :: rest =>
    let code := start + gap
    (code, if c = 0 then [a, b] else [a, b, c]) :: expansionsFrom code rest
  | _ => []

def upperRuns : List CaseRun := runsFrom 0 <| unpack [
  0x1043105321368E10119B91053225F322E29327732227A91068322F23EA107189163818912E5B2F9E101AC1891391C9,
  0x101F32725101310251013102510131061E8102310431053214310331053107322348C10458E101310438A103310631,
  0x1126BD1016CD1015A8FC1015A8F81015A8FE1019324531035A9FE1133103932185A322B4310251013102B321822BF1,
  0x159FDE1012CDA981016CF1016CB1022CDA981012CD9A81026BF1022CDAAE1016BB1042CDABE1016AF1026AD1036BB1,
  0x126EB11129B1016ED1012CD9AC1046ED1012CDA8E1026ED10359F9E10186DD1036DB10159FFA1026CF1032CDA8A101,
  0x1289101918911817F1029189128419B12119D106948C12431063215C2D8102CF2CD8CC1012CD8DA101B6EF10629F10,
  0x111F4818913F6D310331033891023D91011E1012C91012DD102F321B2291011DD1011BF1041EB1011FD1031FF111,
  0x110138BBB10138BBD104A9829151BFB1BE88125D1BE8815A5DDF1C914D2A8325F23F101D3266F323A5A3228292C9,
  0x161EF102BA3219A1EB29A9E810291EF9C10429A898103E9299E8C1013899B10138AF910138B8F10238B8D11138B99,
  0x101E28116C3FC1123C81124881123981142DC1322AC112828171F28232928152828172828172828152828171BF325F,
  0x1033101B32225A9A91015A9AF104310691C915F3DC86D1391D9C3102C4911F4A79105D91E10528112828112A3C99B1,
  0x1332153101D324532118F323E283262CA321D188322E7CCAC3CB891063CB89104F3CB8914D1D31073211DB32691B31,
  0x111A2FF1A914B2E81A914F2BCF18913959FA92AFEC9119F3D3D89101DBD3103F3216310193212B3273E321931C810,
  0x118D1497DB8A18913F5AEC818913F688828916A3C8D19F111819F162819F11E1C19F]

def upperExpansions : List (Nat × List Nat) := expansionsFrom 0 <| unpack [
  0x11AC101CE91981CC9F02DAA2CED7AF1C891C981ECD481C891C981EB96C801C9C19A2CF019E1AFC1DA01AB1AB3BF,
  0x11FC985A1D8A1CAB1ECD21C891CAB1ECD21C881CAB1ECD201CAB1ECD2EE01AFE189101C9A1B9101C9A1AF101C98,
  0x101EB91FC98101EB91FC9F101EB91FC9E101EB91FC9D101EB91FC9C101EB91FC9B101EB91FC9A101EB91FC99101EB9,
  0x1101EB91FCD8101EB91FC9F101EB91FC9E101EB91FC9D101EB91FC9C101EB91FC9B101EB91FC9A101EB91FC991,
  0x11FCD9101EB91FCD8101EB91FCDF101EB91FCDE101EB91FCDD101EB91FCDC101EB91FCDB101EB91FCDA101EB91FCD9,
  0x101EB91FDD9101EB91FDD8101EB91FCDF101EB91FCDE101EB91FCDD101EB91FCDC101EB91FCDB101EB91FCDA101EB9,
  0x1101EB91FDD9101EB91FDD8101EB91FDDF101EB91FDDE101EB91FDDD101EB91FDDC101EB91FDDB101EB91FDDA1,
  0x11E8E101EB91EA9101EB91FEFA301EB91FDDF101EB91FDDE101EB91FDDD101EB91FDDC101EB91FDDB101EB91FDDA,
  0x151EB91D8A1EAF101D8A1EAF201EB91E99101EB91EAF101EB91FF9A601EB91EA951EB91D8A1EA9101D8A1EA9201EB9,
  0x11EC911C891C981ECD11C881C981ECD1B1D8A1C981EB9101D8A1EB931C891C981EB911C881C981EB9601EB91EAF,
  0x101EB91ED951EB91D8A1ED9101D8A1ED9201EB91E9F101EB91ED9101EB91FFFA1B1D8A1C981ECD101D8A1ECD201CAB,
  0x12D8C102CED2D8C102D8E2D8C1D01AC1AB101AC1AB119C18E18E119918E18E1019C18E1019918E1018E18E1DDC8C,
  0x102CFD2D8C102D8E2D9E102CFB]

def lowerRuns : List CaseRun := runsFrom 0 <| unpack [
  0x110321026BA11221016BC10422116CC101822213EB105E222E2922772226A222F58188163818812E1FF188139189,
  0x110221036EC10221016EC10622216DC1026DA1016CE10421016CA1016CE1026BE1016BA10221016AE1016AC1012BE,
  0x11058222B11E910138B10422114102B22182B22181410221014102210141018210421016EE10422126EA11221016EC,
  0x110419A12219C1073D8101921062214DA224129E10129A10168F10221035A9A810158F10221015A9AE10382218248D,
  0x106E223A5A22281A818813F282C811F348D12321011F10221031F9103C221B1928105C1881182A18812831FE112288,
  0x11BE89125D1BE8915A4AC828151A82AFEC8119F1BAB3CB881063CB88104F3CB8814D5DDF1C814D1C9225F1F22613E1,
  0x111229112829172829172829174829171F29232929152829172829172829152829171D8225F23DDFF102BE2219A58B,
  0x148A9D10148DFF1043DAFB104DA2B1023FD112489111C1F1023C911229111E39911229111C2B1042DD131C2B1022AD,
  0x110159FFB1015A8F9106222359F9F1011EF9D10159FDF1022101C81C815F3D9A6C1391CEB2104B4811F5E78107,
  0x1224129A89910422118F223E282262CA221D188222E7CD9E21072211DB226925A9FF1119210321025A8FD1015A8FF,
  0x11012CD9AD1012CD8CD1022CDA991012CDA8B1012CDAAF1012CDABF1012CDA99102C2219622132CD9A91022101D,
  0x13881A814B2E81A814F2BBF1881395BCDC2103F221621019221129A9E91012CDA8F1011C9102822713D881012CD8DB,
  0x118C1497DB8818813F5AEC818813F68C828816A3BDC19E111819E162819E11E1C19E11A]

def lowerExpansions : List (Nat × List Nat) := [
  (0x130, [0x69, 0x307])]

def cased : CharSet := .ofLengths [
  0x1215114E5CAF59194E12CE1829B11AB12C111311611422245A11C853E274C13A844138B13F12F51411A15F3A63A189,
  0x1411CD1D2811D11EC71351D46243713311716D23F1111111182624E2624AE188388188325B7194A8A621AE1AC8415B,
  0x1315385111257B1431CE28C3E2A5E7CCAA15114E1C23463CD3CAE6C1CE923482914554214614111111653111A21,
  0x16B1D6B2B8D1915A132178B21711F11B121711F11B1EC4C44C1C81A82ACD3A63A289951C74FD881A861E15B1CED,
  0x113913F13913F13913F13913925AC1731151413C17118241189171111C14222122118F11AD6AE881885ADC81885EDD,
  0x13A63A63A3FDC18C4AAA7E48D662C11A3CEC1813913F]

def caseIgnorable : CharSet := .ofLengths [
  0x111A1181CD1282D1A14B111B1A61B15C112121115D6915139F73FB1121914243887EF22141114118F1114B11B1614F,
  0x123E133224241792213A22C1184417A11F11D21A73141841116F7A591862715C35B383812141B7A1B1BB3B3E111494,
  0x12C1184427923C22C25161217A13D21B2741353116F1316A11C17D13E21B27118411217A1162E22C14215417921B13,
  0x11BE11F162211D4283423922216141CE1194C11B521511E6F111113B21997111919211CA191B7211BA1137119813D2,
  0x14693F1814F121A618211117117A1223BB361192431EE14A218916B55D15131B211871218823E23E23D31EEA319C81,
  0x121851C21D31D31D31B3116FD1CD4A11D7F6A231614711D131AA618822187A311321178312244821C1958151151168,
  0x1111A141CA149E62BCA16FCAE31BD61BD155344C17AD15F481C811F11FD31E925E9B496B1D2811D111A1569521211A,
  0x16B11B14B11811C2222618A22D129224216835E1B39184E11D2A3A22AF1523914131182331CF32F119E4A1E21A843C,
  0x132D118B25D15F1114B11B161712D91214A281C132818FD292AB14FCE8141211F931951CC112521E13B112522311,
  0x16A11A14122246931A221591F6E11FB4691B18E31A8268B418FD22CD1435845213198E1915A16288D52AD13CA11889,
  0x12181AD23B212643DE21241161AC12F11321838B5374D1327922D18312BD1216211231BF1241A196C21C17E18154C3,
  0x111361FA2121722E1AA116176AE211D5E32619118426581A48142242A814112488211948B514231CD11621111DA211,
  0x12F25E199BC4126ABE217144889B212188297F1289B41977B53BABA1F6291ABDD111556C21B25BB1113219811712,
  0x155ADF181DD71FC857FB47D15E81E2C81497E551217229172DA81F152E11E1186A46F3EFB32AC43E722819318C8,
  0x13E82881C83E1388E889]

def mapCase (runs : List CaseRun) (expansions : List (Nat × List Nat)) (c : Char) :
    List Char :=
  match expansions.lookup c.toNat with
  | some ns => ns.map Char.ofNat
  | none =>
    match runs.findSome? (·.at? c.toNat) with
    | some n => [Char.ofNat n]
    | none => [c]

def upperChar (c : Char) : List Char :=
  if c.toNat < 128 then [c.toUpper] else mapCase upperRuns upperExpansions c

def lowerChar (c : Char) : List Char :=
  if c.toNat < 128 then [c.toLower] else mapCase lowerRuns lowerExpansions c

end Text

end ClassScript
