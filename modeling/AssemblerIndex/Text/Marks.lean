import AssemblerIndex.Text.Coded

/-!
# Marks

Marks combine with the character in front of them.  Those with a combining class other than zero may
change places with marks of other classes without changing what is written.
-/

namespace AssemblerIndex.Text

/-- Code points of the general category M. -/
def markCode : String :=
  "768 112 275 7 263 45 1 1 1 2 1 2 1 1 72 11 48 21 16 1 101 7 2 6 2 2 1 4 35 1 30 27 91 11 58 9
   9 1 24 4 1 9 1 3 1 5 43 3 59 9 42 24 1 33 54 3 1 18 1 7 10 2 29 3 56 1 1 7 2 2 2 3 9 1 10 2 26
   1 2 3 56 1 1 5 4 2 2 3 3 1 30 2 3 1 11 3 56 1 1 8 1 3 1 3 20 2 22 6 1 3 56 1 1 7 2 2 2 3 7 3
   10 2 30 1 59 5 3 3 1 4 9 1 40 5 55 1 1 7 1 3 1 4 7 2 11 2 29 3 56 1 1 7 1 3 1 4 7 2 11 2 15 1
   12 4 55 2 1 7 1 3 1 4 9 1 10 2 29 3 70 1 4 6 1 1 1 8 18 2 61 1 2 7 12 8 98 1 2 9 11 7 73 2 27
   1 1 1 1 1 4 2 49 20 1 2 5 11 1 36 9 1 100 20 23 4 4 3 1 3 2 7 3 4 13 12 1 1 10 4 703 3 946 4
   28 3 29 2 30 2 64 32 9 1 45 3 1 1 117 2 34 1 118 12 4 12 219 5 57 10 1 29 2 1 48 46 2 12 20 5
   47 17 38 9 12 3 30 13 56 14 48 20 152 3 1 21 4 1 6 1 2 3 198 64 720 33 3070 3 141 1 96 32 554
   6 105 2 30164 4 1 10 32 2 80 2 272 1 3 1 4 1 23 5 4 1 83 2 50 18 26 18 13 1 38 8 25 13 44 4 47
   14 36 1 67 14 12 1 8 2 45 3 50 1 1 3 2 2 5 2 1 1 41 5 5 2 236 8 1 2 20272 1 737 16 16 16 973 1
   226 1 149 5 1670 3 1 2 5 4 40 3 4 1 165 2 573 4 65 5 317 2 77 6 70 11 49 4 122 3 53 15 41 1 2
   2 10 4 45 11 7 1 61 3 36 14 16 2 44 1 12 3 48 14 8 4 1 2 92 12 6 1 2 1 157 12 21 4 55 2 1 7 2
   2 2 3 9 1 10 2 2 7 3 5 67 9 1 1 2 1 1 4 1 5 1 1 14 2 82 18 23 1 81 20 235 7 2 9 27 2 82 17 106
   13 101 15 256 15 245 6 1 2 2 4 1 1 1 2 141 7 2 7 3 1 28 10 40 7 1 4 8 1 9 11 46 16 198 8 199 8
   1 8 82 22 1 14 122 6 3 1 1 2 1 7 1 1 66 5 1 2 1 5 347 4 9 2 1 1 48 7 3 5 23 1 5349 1 6 15
   11464 18 2496 5 59 7 1048 1 1 55 7 4 81 1 11 2 19627 2 4705 46 2 23 542 5 3 6 8 8 2 7 30 4 148
   3 1979 55 4 50 8 1 14 1 22 5 1 15 1360 7 1 17 2 7 1 2 1 5 100 1 160 7 375 1 61 4 508 4 254 2
   243 1 2 1 7 2 5 1 474 7 109 7 792501 240"

/-- Code points with their combining classes. -/
def combiningCode : String :=
  "768=0 21=230 1=232 4=220 1=232 1=216 5=220 2=202 4=220 2=202 11=220 5=1 4=220 8=230 1=240
   1=230 3=220 3=230 2=220 1=0 3=230 4=220 1=230 1=232 2=220 1=230 1=233 2=234 1=233 2=234 1=233
   13=230 275=0 5=230 265=0 1=220 4=230 1=220 3=230 1=222 1=220 6=230 6=220 2=230 1=220 2=230
   1=222 1=228 1=230 1=10 1=11 1=12 1=13 1=14 1=15 1=16 1=17 1=18 2=19 1=20 1=21 1=22 1=0 1=23
   1=0 1=24 1=25 1=0 1=230 1=220 1=0 1=18 72=0 8=230 1=30 1=31 1=32 48=0 1=27 1=28 1=29 1=30 1=31
   1=32 1=33 1=34 2=230 2=220 5=230 1=220 2=230 1=220 16=0 1=35 101=0 7=230 2=0 4=230 1=220 1=230
   2=0 2=230 1=0 1=220 2=230 1=220 35=0 1=36 30=0 1=230 1=220 2=230 1=220 2=230 3=220 1=230 2=220
   1=230 1=220 3=230 1=220 1=230 1=220 1=230 1=220 1=230 1=220 2=230 160=0 7=230 1=220 1=230 9=0
   1=220 24=0 4=230 1=0 9=230 1=0 3=230 1=0 5=230 43=0 3=220 59=0 2=230 3=220 4=230 42=0 5=230
   5=220 14=230 1=0 1=220 2=230 1=220 2=230 1=220 3=230 3=220 1=27 1=28 1=29 3=230 1=220 2=230
   2=220 5=230 60=0 1=7 16=0 1=9 3=0 1=230 1=220 2=230 103=0 1=7 16=0 1=9 48=0 1=230 61=0 1=7
   16=0 1=9 110=0 1=7 16=0 1=9 110=0 1=7 16=0 1=9 127=0 1=9 110=0 1=7 16=0 1=9 7=0 1=84 1=91
   101=0 1=7 16=0 1=9 109=0 2=9 16=0 1=9 124=0 1=9 109=0 2=103 1=9 13=0 4=107 108=0 2=118 1=9
   13=0 4=122 76=0 2=220 27=0 1=220 1=0 1=220 1=0 1=216 55=0 1=129 1=130 1=0 1=132 5=0 4=130 2=0
   1=130 1=0 2=230 1=9 1=0 2=230 62=0 1=220 112=0 1=7 1=0 2=9 82=0 1=220 719=0 3=230 948=0 2=9
   30=0 1=9 157=0 1=9 10=0 1=230 203=0 1=228 143=0 1=222 1=230 1=220 219=0 1=230 1=220 71=0 1=9
   20=0 8=230 2=0 1=220 48=0 5=230 6=220 2=230 1=220 1=0 2=220 2=230 2=220 5=230 1=220 18=230
   1=220 2=0 6=230 1=220 4=230 1=234 72=0 1=7 15=0 1=9 38=0 1=230 1=220 7=230 54=0 2=9 58=0 1=7
   11=0 2=9 67=0 1=7 152=0 3=230 1=0 1=1 5=220 2=230 4=220 1=230 1=0 7=1 4=0 1=220 6=0 1=230 3=0
   2=230 198=0 2=230 1=220 7=230 1=220 2=230 1=234 1=214 1=220 1=202 37=230 1=232 2=228 1=220
   1=218 1=230 1=233 1=220 1=230 1=220 720=0 2=230 2=1 4=230 3=1 2=230 4=0 1=230 3=0 2=1 1=230
   1=220 1=230 2=1 4=220 1=230 3070=0 3=230 141=0 1=9 96=0 32=230 554=0 1=218 1=228 1=232 1=222
   2=224 105=0 2=8 30164=0 1=230 4=0 10=230 32=0 2=230 80=0 2=230 276=0 1=9 37=0 1=9 151=0 1=9
   27=0 18=230 57=0 3=220 37=0 1=9 95=0 1=7 12=0 1=9 239=0 1=230 1=0 2=230 1=220 2=0 2=230 5=0
   2=230 1=0 1=230 52=0 1=9 246=0 1=9 20272=0 1=26 769=0 7=230 7=220 2=230 973=0 1=220 226=0
   1=220 149=0 5=230 1682=0 1=220 1=0 1=230 40=0 1=230 1=1 1=220 4=0 1=9 165=0 1=230 1=220 573=0
   4=230 65=0 5=230 317=0 2=230 77=0 2=220 1=0 3=220 70=0 2=220 3=230 1=220 1=230 4=220 49=0
   1=230 1=220 1=230 1=220 192=0 1=9 41=0 1=9 14=0 1=9 57=0 1=9 1=7 69=0 3=230 48=0 2=9 62=0 1=7
   76=0 1=9 9=0 1=7 106=0 1=9 1=7 178=0 1=7 1=9 80=0 2=7 16=0 1=9 24=0 7=230 3=0 5=230 89=0 3=9
   113=0 1=9 3=0 1=7 23=0 1=230 99=0 1=9 1=7 251=0 1=9 1=7 126=0 1=9 118=0 1=9 1=7 115=0 1=9
   269=0 1=9 1=7 258=0 2=9 4=0 1=7 156=0 1=9 83=0 1=9 18=0 1=9 81=0 1=9 421=0 1=9 258=0 1=7 1=0
   2=9 81=0 1=9 425=0 2=9 16876=0 1=9 2496=0 5=1 59=0 7=230 1209=0 2=6 19628=0 1=1 5318=0 2=216
   3=1 3=0 1=226 5=216 8=0 8=220 2=0 5=230 2=220 30=0 4=230 148=0 3=230 3515=0 7=230 1=0 17=230
   2=0 7=230 1=0 2=230 1=0 5=230 100=0 1=230 160=0 7=230 375=0 1=230 61=0 4=230 508=0 2=232 1=220
   1=230 254=0 1=230 1=220 243=0 1=230 2=0 1=230 7=0 2=230 5=0 1=230 474=0 7=220 109=0 6=230 1=7
   988853=0"

/-- The marks. -/
def marks : CharacterSet := .ofCode markCode

/-- A mark, which needs a character in front of it. -/
def isMark (c : Char) : Bool := marks.contains c

/-- The combining class of each character. -/
def combiningClasses : CharacterProperty Nat := .ofCode (fun mark => decimal (mark.drop 1)) combiningCode

/-- The combining class of a character; zero for one that stays where it is. -/
def combiningClass (c : Char) : Nat := (combiningClasses.value? c).getD 0

/-- A mark that joins the letters around it without a vowel. -/
def isVirama (c : Char) : Bool := combiningClass c == 9

end AssemblerIndex.Text
