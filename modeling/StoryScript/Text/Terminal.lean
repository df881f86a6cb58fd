import StoryScript.Text.Basic

/-! Colours of a terminal, as control sequences in a text. -/

namespace StoryScript.Terminal

def escape : Char := Char.ofNat 27

def sequence (code : Text) : Text := escape :: '[' :: code ++ ['m']

def red : Text := sequence "91"
def yellow : Text := sequence "93"
def green : Text := sequence "92"
def blue : Text := sequence "94"
def cyan : Text := sequence "96"
def bold : Text := sequence "1"
def reset : Text := sequence "0"

end StoryScript.Terminal
