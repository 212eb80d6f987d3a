import ClassScript.Text.CharSet

/-!
# Characters a Quoted Text Shows as They Are

A quoted text spells by their code point the characters without a glyph of their own and those
that attach to the character before them.
-/

namespace ClassScript

namespace Text

def unprintable : CharSet := .ofLengths [
  0x12C9119A193F51B1123C11F26927B1E1CD27B268138812E29643B186F1326A24E169D12C11174621B9A11C4A1BF480,
  0x11F1231311A25121712E13119131A29711471332245112212121712E2246132392512411842221924311712E222181,
  0x1741311922812F1311D52D1E16124133541C3332321112341336121A2A251243732221925121712E22218131771C24,
  0x17A1C321A618111641372111913832A1313A228461316B1311D1C311A24126274131192511A12F1312E71A24212312,
  0x117911F24111724149241592411172415F92151138E4D1D11F14C14F44C119848421A17111522F111381511124D3D4,
  0x1525A3141C41C13F1A18E55B71B961B11E61A61A21BE1C21311D1C2C1938192E71B933C11A882621AE63A348218B24,
  0x116D23F1111111182624E26218AE55B181B25B77C31F37C181EC15F319D693F21E61A61B23D118927E31B63A45C1B,
  0x171717171719381E2778215115D55BD14823CAC2D1B391AAF429C1F491F4931D13B22295F183829191322B1621E11F,
  0x17861A37B3851112539B182F82C5BC196F3799DD15F1C1AC11BE15B51CF21AE17F51C3A3AE1C1B913A4A1FE1717171,
  0x15DE1CC88488846942F1C2DECC61A21FE47C171719626261A3C381CF21A21E196F14941B119E33E1B1EC61C1818E18,
  0x14A1E21F1212B13A11C221D7173326262632FE428F154412B16B65A48176E26FD281FD1212111513A551C74E1DA2,
  0x11711F11B121711F11C1B6C185844C44C61A22BE5A1E44D13E55B53E194C43C1F6933D28A5E5F131D11B835D4351FB,
  0x171971A4323D131185216A22C478188153B3495212B68191819812F213215C112618D1915A1638181A2E194EF18B2,
  0x1194C419E192F2C3C4E3A2E5A185B19B22315A13F4CE1A185E76B1D6B6F1991A871C473A53B23D36E191C44F48188,
  0x129B537275161232221A15121712E222181461A57B61B11F1411177E5F12A1B2C11C8194F182A16D61A7391D517E,
  0x15E21818E1A191C2213E12118212181C1AB1CC7C2F92F41F23B6E1A67A2B1D61A1B18D4A4E26E2CE1A181983E511BC,
  0x13C3591297394EE1A761214D121661A1819121135C12171991E12E24833D1A1E15D1193EE1A71991D1AB181983B1B2,
  0x12D1711A1A18E1A623E61A11A941A13F718F928EF9198F7EDA2E2828E81D1CB599C38C1B511DF1CE1EBB1D6A1F11AE,
  0x121A71931D51DB4C8C69C1841E1233D11F4CB12171429BCF195A2BAE181BFF81E21B518829779419B1CD1BB1AE82B5,
  0x17118241189171111C14222122118F11AD28F39191AF1C2C1C2C1FA18E2D1E81819A24F1A3EE7C1EC192F25E199C84,
  0x14171BCE5A7A8157A293F588241A21E35D1E81497E551217229173AD663F29A81F151F1AFE24CC25AC1731151413C1,
  0x114141714211211111111112112131111114161111411A11211213B1438A7D19C18C1CA9241A419C5928238D11F121,
  0x17841C1F141C61BF41EF31D32941FB82BA61E271945C1D3D782DE1A4D11F11F21F1C1CC45C49E26C29151352911A11,
  0x168BF1ECE91E1BA8A23BE6188FA481ABBC8288E1A4D6F12AB71971941E18715E71931D21E1C5AC19E223E185861A18,
  0x15FF8A83E82DDEDA8189C8519D9B2FCA18BE]

def extenders : CharSet := .ofLengths [
  0x1116F481385A187C35B5131191438119197A1B1BB3B3E14B41226271CD1282D681B198112121115D48F74AB1E81C88,
  0x1117B13E21A37118412117A1162E22C14215417921B1323E133224241792213A21A119118421117A13D21A73141841,
  0x11CA181C7211A9118113214119813D21A119118421127923C21B272513121217A13D21B2741353116F1315811911C1,
  0x1211871218823E23E23D31EEA31AFF11F162211D4283423922216141CE1194C11B521511E6F111113B219971B1921,
  0x12187A311321178312244821C195815117684693F68121A618211117117A1223BB361192431EE14A21ED1135D1191B,
  0x12A3A22AF15239141314A821A82481A147AFAC21D9618DA481C8129D35FFE4938B1189C18838E231614711D132B82,
  0x1119BD25DE2828281BC914FCE8141213DE11825A1125223116B15F11811C2222618B14F224216835E1B39184E11D,
  0x1241A196C21C17E18154C37D172246931A221591F6E11FB4691B18E31A8268B418FD22CD14358452133A8E52AD13CA,
  0x121111DA2112181AD23B21264213DB212112116211A912F11321838B5371E12E111127922D18312BD1216211231BF1,
  0x11171211361FA2121722E1AA116176AE211D5E32619118426581A48142242A8141121A13ED211948B514231CD116,
  0x132AC43E7218185431118BE2F25E199C924EAF811A947F128B877B53BABA1F611ABFD111556C21B25BB11132198,
  0x13E82881C8389BBAD71DD71FC847FC47D15EF72C811CC51217229172DA81F152E11E1186A46F3EFB]

def isShown (c : Char) : Bool :=
  if c.toNat < 128 then 32 ≤ c.toNat && c.toNat < 127
  else !extenders.contains c && !unprintable.contains c

end Text

end ClassScript
