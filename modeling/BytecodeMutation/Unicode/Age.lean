import BytecodeMutation.Unicode.Table

namespace BytecodeMutation.Unicode

def editions : List String :=
  ["1.1", "2.0", "2.1", "3.0", "3.1", "3.2", "4.0", "4.1", "5.0", "5.1", "5.2", "6.0", "6.1", "6.2",
   "6.3", "7.0", "8.0", "9.0", "10.0", "11.0", "12.0", "12.1", "13.0", "14.0", "15.0", "15.1",
   "16.0"]

def ageText : String :=
  "ThaddBdahdafagrdcgkhniDkaedbgBuaadjaedqgCraidafhgehcgbaadmfdjbabjbBbaaciaaapdBbgaaBbaaaBbtaaBb
    BraajgaadbfaaadaaadaaadaaadrabeafegdhadlaadCnaadlaadBoaajbdbfddCaabfbabfbabfaiBbabdhabhbafipf
    dipjbkblhpaBbBlabBbgaatBmaataaadbBbbpamaBbqbahmbjaaiiaabchhBbBaadBbateakBbdgamapejahaaigejaaa
    oaxahaaalzaejsacdcgfhalnabfCtabdeaadoaadBdabgjaedagndaBbBddcgBadbBbcgBdhrjBwdafnBbCgibBbctBtk
    bBbokaBbBblbBbalaBbkseBbBexaBbbxeBbaBahxamapkmfpbqaxhrjwkxatoraqBamapakcaagCaablraakaleaakbly
    abjelapbkbiahbiapcaaBbhabBbbabBbvaaBbgaaBbaacBbdabBbaaaggabBbbabBbcaahhBbaadBbbaaBbeabBbuaakb
    satbBbagaaagaBbfadBbbabBbvaaBbgaaBbbaaBbbaaBbbabBbaaaBbeadBbbabBbcacBbajgBbdaaBbaagBboaajatjB
    bcaaBbgaagaaaBbcaaBbvaaBbgaaBbbaaBbeabBbjaaBbcaaBbcabBbaaoBbaacgbBbjaamaggBbaqfsaBbcaaBbhabBb
    babBbvaaBbgaaBbbaaBbagdabBbhaajbBbbabBbcagBbawbadBbbaaBbcabjbBbkaagfljBbbaaBbfacBbcaaBbdacBbb
    aaBbaaaBbbacBbbacBbcacBbhaahcadBbeacBbcaaBbdabBbajfBbaanBbahlahgeBbapcaathaaBbcaaBbwaaBbjaape
    abBbaxajgaaBbcaaBbdagBbbaaBbbjaqbBbaxbBbbabjbBbjagBbauhjarapbaathaaBbcaaBbwaaBbjaaBbeabBbbgga
    aBbcaaBbdagBbbafBbaxaaaBbbabibBbjaaBbbiaylBbasapbaawhaaBbcaaBbwaalpaalbsajfaajaBbcaaBbdaalard
    BbcraagraqbabjbBbjafjcrgjaBbawbdaBbrdcBbxdaBbidaBbadbBbgdcBbaddBbfdaBbadaBbhdfBbjpbBbcdlBbCfa
    dBbBcaBkBbbaaBbaaaBbaubaauaaaBbauaafudaaugaaucaaBbaaaBbaabubaaumaaucabBbeaaBbaaaBbfaayaBbjabB
    bbabmBfBbCtbaBbBgbadbjdBbBabdlfbadabaBbubcdgbadabcdaBbodaBbajadbhcjdkblBkBbBhdajedajbdajgdcjd
    dfjzdCljdkbjBlaaBbameBbambBbBmabfbhaaahcmDlaekCpaekDdafkgdahCkdahadaBbddbBbgdaBbadaBbddbBbBmd
    ahadaBbddbBbBedahadaBbddbBbgdaBbadaBbddbBbgdahgdaBbwdahBedahadaBbddbBbgdahBmdahsdbBbblbhBbdcB
    bzhfBbDgdaqbBbfqbBbakYfdikBcdcBbDcdhpgBbmfaxgfaxiBbaxwfiBbtflBbmfaBbcfaBbbflBbDodagbBbjdfBbjg
    fBbodaxjdfBbDjdatgBbBpdajeBbCrkjBbBcgbpaBblgdBblgdBbagcBbBpgbBbegkBbBphbkdBbzhfBbjhakcBbbhBfg
    BbhbBbbhCkkaBbBckbBbkkfBbjkfBbnkbBbopbwnxBwBbCxiaxaBbbBaBsibxaBaBqjcmljfmBzlhBbdlCdjcBbojcBbB
    yjirbBaeBbBqtbBbcthmhBbBikdmasbpaueBbEdgDjhgiBbjopdsaxaralakbiFyaabdjDlafjvabBbfabBbBlabBbfab
    BbhaaBbaaaBbaaaBbaaaBbBeabBbCaaaBboaaBbnabBbfaaBbsabBbcaaBbiaaBbBuaadwaaffdefbgbhafghefajaBbd
    ogaafbBbBaaaBbehhlcBbkaabaccdbfdhckalancpaqasaxoBbrabdgfahdiajoBbCeabdagahofahbiajckBvaadaidj
    akbqdBbDmaidlfJhanfaaadEqaadafBddBzfbgkhliakklgpdrasBkabdcBavBbkauBbFiatfagFtajfDbahdhftabgbf
    ahadDhabdlfbhjfhgkhajbkbgphaijjckdjjkalskalakdlxkapdaaldablBbaalBiaalaaaldaclaaakgablganfBeac
    lxaalnaalghdiamajamblBbfdjpfJvdTrfngfhgiejdiBojcpejekzpbBbBfpaBbawBhpctlpauhpasytdqotauBuhaxB
    uhaxmicjakcjdifjbkEchgkbmeBbBshaBbameBbambBbCbhbmgBbahalnBbalwhiBbghaBbghaBbghaBbghaBbghaBbgh
    aBbghaBbghaBbBfjxhdjbhsjakjmgpbresetaucwkxBhBbzdaBbDkdlBbIfdzBblddzCdacdcfadaaaBbDfabfbBbfabf
    DpaafeBbBnaajasataBbDpaaBbpaxdclewphtjbBaiBbazpfBcabgaBbBjalkagofBbabgahBxaofladgBuaavEoadgDu
    abgBeaagJTddjwClgBEXxavhhjhkamiqusetmwcxBSudcBbrdbfpdafldafcdafadiBbBvkLnjtBbBfjblrjhmBbjfpaq
    amDjkhBbwhdiejbiEcjblaqblbmlpjlamcparatbpfqbtfubxeudwcBabBbbxaBbaxaBbexcBauBbcxbwapbmalejBrha
    wcBbjkfBbCdihBbCqjarhBbljfBbBbkbqbtDfjkBbajBckcBbCzkaBbkkdBbbkBepaBbCcjiBbnjbBbjjbBbdjBbkdpCo
    kxBbekwmjBbflbBbflbBbfliBbglaBbglaBbBvpdqbpbudwdBbDbqBtkbBbjkfBbQNrblBbwkdBbBwkdBbDAtbJXtabmC
    gfckbBbEbhBlBbgalBbeaeBbadyaaBbeaaBbaaaBbbaaBbbaaBbEdaplaxpBbOaapxClabBbCbagBbaxBfelaafagbxpf
    jhfBbdacjgpbquabfbgjaaBbsaaBbdadBbcaafaaaBbFeabBbaaaBbDpabfDpacBbfabBbfabBbfabBbcacBbgaaBbgaj
    BbcdaccalgaBbzgaBbsgaBbbgaBbogbBbngBhBbEsgeBbcgdBbBsgcBbigCwhbpbraBbljawcBbapBuBbBtjEzBbBcjcB
    bBwjoBbBbpdBbBeeapdeiBbcsBaeeBbBqpeBbBdgaBbagBjhdBbnhBpBbBlebgBleDbgbBbjgfBbBjrdBbBjrdBbBnphB
    bBzpkBbapkxaBboxaBbgxaBbbxaBbkxaBboxaBbgxaBbbxcBbBzBalBbLypiBbvpjBbhpxBbfxaBbBpxaBbixCqBbfgbB
    bagaBbBrgaBbbgcBbagbBbagvkaBbikCkphBbipBvBbsqaBbbqeBbeqzibkcBbaizjeBbajClBbCdmdBbbqbmpqbBbBtq
    dhaBbbheBbhhaBbchaBbBahbtbBbchdBbihatgBbihgBbBfkBfpBfBbBmpdBblpiBbCbkcBbBckbBbBakeBbhkrpgBbdp
    lBbgpDbBbCukCcBbByqmBbByqgBbfqBnthBbjtfBbBlBacBbBcBahBbbBaHzBbBekaBbBpwaBbcwbBbbwpBbcBaCcBbaB
    acyBnthBbBptvBbzxBlBbBbwtBbwuiBbCzldBbBdlfxiBbapCnkaxjBbatbBbymgBbjmfBbCamaBbnmctawhBbBmpiBbC
    umdqapbwjmapeqaBbtpkBbrpaBbBqparcyCjBbgqaBbaqaBbdqaBboqaBbkqfBbCgpeBbjpfBbaqcpaBbhpbBbbpbBbvp
    aBbgpaBbbpaBbepaBbatipbBbbpbBbcpbBbaqfBbapeBbgpbBbgpcBbepkBbjBaaBbaBabBbaBaaBbBlBaaBbjBaaBbaB
    abBbaBaaBbdBaaBbjBaaBbbBahBbbBaBcBbDlrawaraBbarataubwBdBbCtphBbjpGjBbCbpbBbrptqBhBbCqpkBbjpfB
    bmrsBbCdmauaxfBbjmfBbtBaBbBbzqatbBboqdBbpqgxHcBbChtDvBbDeplBbapgwbBbawbBbhwaBbbwaBbBdwaBbbwbB
    blwiBbjwCrBbhubBbBtubBbkuBaBbCtshBbBzsbuwsatesmBbpxCepgBbjyGzBbBhBanBbjBafBbiraBbBsraBbnrjBbB
    crcBbBfrbBbvraBbnrCuBbgsaBbbsaBbBrscBbasaBbbsaBbishBbjsfBbftaBbbtaBbBktaBbbtaBbftgBbjtLxBbytg
    BbqyaBbBoycBbBbyaBaDgBbawoBbBxumBbauBHuiBppaqDxBbDuilpaBbdiapkBbHnqDXjBbDuxmBbBPekayiuBcyjBbF
    XqBaeBbWkqKDcBbCfBaCOrBbVwlgBbBepaBbjpdBbbpDaxaBbjxfBbBdpbBbfpjBbCrpjBbjpaBbgpaBbupeBbspQpBbC
    fBaHpBbDmtDwBbCqmfudBbauBumiugBbqmClBbarasbuawkBbbwnBbJBoretfuhBbBDarSowBoBbaBaiwNFqBbdxaBbgx
    aBbbxaBbblKysdxoBbayBcBbcubBbaynBbduhBbPfsDKtBbEcpeBbmpcBbipgBbjpbBbhpFVfBbJpBafBbQtBaCxBbBtx
    bBbwxiBbElxChBbJlejBbBmebBbajGxekqbxuBbCrhErBbtylBbttlBbDigiBbrigtFeBbDgeaBbCseaBbbebBbaebBbb
    ebBbdeaBbleaBbaeaBbdeagbeaBbCmeaBbdebBbheaBbgeaBbBbeaBbdeaBbeeaBbaecBbgeaBbMzebhbBbLdebibBbBx
    eZbqoBbeqaBboqBQlBbBexfBbfyIeBbgraBbqrbBbgraBbbraBbereBbCjyBgBbayEhBbBsucBbnubBbjudBbbuMhBbBe
    xqBbCfueBbauRvBbBpyIfBbBqBadBbaBaSlBbgxaBbdxaBbbxaBboxaBbHopbBbppBoBbCwraudBbjrdBbbrBEeBbCptC
    xBbCiuHlBbdmaBbBamaBbbmaBbambBbamaBbjmaBbdmaBbamaBbamfBbamdBbamaBbamaBbamaBbcmaBbbmaBbambBbam
    aBbamaBbamaBbamaBbamaBbbmaBbambBbdmaBbgmaBbdmaBbdmaBbamaBbjmaBbqmeBbcmaBbemaBbqmBzBbbmKjBbBrj
    dBbDvjlBbolbBbnlapaBbolaBbolvpjBbkkbpcwBekatalakklakalakblakclakclekhlakglakjlbmaucwilakalbkb
    lakjldkblakjlrrawCdBbzlakblmBbBhkilardBbikgBbblnBbfsFxBbBgllpcqflapCrlapbqtllpBklapeldpeqlpql
    gphqCklapalapGzlapdlbpaqCjlbpdmgpeqxlrparBoparDhpelamplamclamalamalamalamclamflbmdlamalbmdlam
    llbpbqklBvpCrljpaqbrbsaubwdBbaycxmpcBbdpcrbsataubwcBbEllcydBbeyDgpdtayfBbludBbaxoBblpdBbCdphB
    bjpfBbBnphBbBdpbBbbwjBadBbbBaCjBblsawcuiqfrashrhsarbslraulrasctormsetauawdtbwaxataudteqmrfskt
    bwfucwbujtfuaqbthuawaxcuwsytDfulBbntbBbduawcycubxcBbcudwbyaBaeBbaBafuswdxcygwdxcyaBaaycwcxaBa
    gBbbygwcxbyaBabBbaBahxayaBafBbgxbygBbFqwaBbCcwBkBajwBNnBbbbCLEsegwbxBfBbGDokdxayfBbInlbBbINpq
    nBbLBksoBbXxzDQvBbUveCFvBbbbHHyweBbGFfyDFLdBbbbDSYnBbbbDSYnBbbbDSYnBbbbDSYnBbbbDSYnBbbbDSYnBb
    bbDSYnBbbbDSYnBbbbDSYnBbbbDSYnBbbbaBbaeBdBbDreExBbJfgDSFlBbHLXhb"

def age? (name : String) : Option CharSet :=
  let label? := editions.findIdx? fun e => e == name || "v" ++ e.replace "." "" == name
  label?.map fun label => labelled (runsOf ageText) (· ≤ label)

end BytecodeMutation.Unicode
